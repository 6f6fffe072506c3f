import PagedStore.Ident

/-!
# Order of use

The pages in the order in which they were last used, the least recently used
first.  Using a page moves it to the end (`Recency.touch`), so no page occurs
twice.

To find a page to give up, the pages are proposed one by one, oldest first,
until one is accepted (`Recency.search`).  Nothing is asked about the pages
after that one.
-/

namespace PagedStore

/-- The pages in the order of their last use. -/
@[ext] structure Recency where
  /-- The pages, the least recently used first. -/
  pages : List PageId
  /-- No page occurs twice. -/
  nodup : pages.Nodup
deriving DecidableEq

namespace Recency

instance : EmptyCollection Recency := ⟨⟨[], List.nodup_nil⟩⟩

instance : Inhabited Recency := ⟨∅⟩

/-- The order without a page. -/
def remove (r : Recency) (page : PageId) : Recency :=
  ⟨r.pages.filter fun q => q ≠ page, r.nodup.sublist List.filter_sublist⟩

/-- The order after a page is used. -/
def touch (r : Recency) (page : PageId) : Recency :=
  ⟨(r.remove page).pages ++ [page], by
    rw [List.nodup_append]
    refine ⟨(r.remove page).nodup, by simp, ?_⟩
    intro q hq p hp
    simp only [remove, List.mem_filter, decide_eq_true_eq] at hq
    rw [List.mem_singleton.1 hp]
    exact hq.2⟩

/-- Proposes pages in order until one is accepted: the pages that were proposed,
and the one accepted, if there is one. -/
def propose (accept : PageId → Bool) : List PageId → List PageId × Option PageId
  | [] => ([], none)
  | page :: pages =>
      if accept page then ([page], some page)
      else
        let (asked, found) := propose accept pages
        (page :: asked, found)

/-- Proposes the pages, the least recently used first. -/
def search (r : Recency) (accept : PageId → Bool) : List PageId × Option PageId :=
  propose accept r.pages

/-- The least recently used page that is accepted. -/
def victim? (r : Recency) (accept : PageId → Bool) : Option PageId := (r.search accept).2

@[simp] theorem pages_remove (r : Recency) (page : PageId) :
    (r.remove page).pages = r.pages.filter fun q => q ≠ page := rfl

@[simp] theorem pages_touch (r : Recency) (page : PageId) :
    (r.touch page).pages = (r.pages.filter fun q => q ≠ page) ++ [page] := rfl

theorem propose_snd (accept : PageId → Bool) (pages : List PageId) :
    (propose accept pages).2 = pages.find? accept := by
  induction pages with
  | nil => rfl
  | cons page pages ih =>
      rw [propose]
      by_cases h : accept page
      · simp [h]
      · simp [h, ih]

theorem victim?_eq_find? (r : Recency) (accept : PageId → Bool) :
    r.victim? accept = r.pages.find? accept := propose_snd accept r.pages

end Recency

end PagedStore
