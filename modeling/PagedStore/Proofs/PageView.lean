import PagedStore.Proofs.Ledger
import PagedStore.Proofs.LockModes
import PagedStore.TableFile
import Mathlib.Logic.Relation
import Mathlib.Tactic.ByContra

/-!
# One page

A store treats its pages one by one.  What it has of one page is a *view* of the
page (`PageView`): the image in the file, the copy in the cache, the before images
kept for transactions, and the modes in which transactions hold the page.

Whatever a store does is, seen from one page, a sequence of *turns*
(`PageView.Turn`).  A turn says what becomes of the view and what goes into the
ledger.  So a property of every page of every store follows from what the turns do.

A transaction *owns* a page if the page has changes of it that are in the cache, or
were written early (`PageView.Owns`).  The image that the page gets back if the
owner aborts is its image *before* the owner (`PageView.before`).
-/

namespace PagedStore

/-- What a store has of one page. -/
@[ext] structure PageView where
  /-- Its identity. -/
  id : PageId
  /-- The file of its table, if the table is in the catalog. -/
  file : Option TableFile
  /-- Its image in the file, if the page lies inside the file. -/
  image : Option Bytes
  /-- Its copy in the cache. -/
  copy : Option Page
  /-- The before image that is kept for a transaction. -/
  kept : TransactionId → Option Bytes
  /-- The mode in which a transaction holds it. -/
  mode : TransactionId → Option LockMode

namespace PageView

variable {v : PageView} {t u : TransactionId}

/-! ## Owners and images -/

/-- The transaction that has changed the copy. -/
def owner? (v : PageView) : Option TransactionId := v.copy.bind Page.owner

/-- The page has changes of a transaction, in its copy or in its file. -/
def Owns (v : PageView) (t : TransactionId) : Prop := v.owner? = some t ∨ v.kept t ≠ none

instance (v : PageView) (t : TransactionId) : Decidable (v.Owns t) :=
  inferInstanceAs (Decidable (_ ∨ _))

/-- Nobody else has changes on the page. -/
def OpenTo (v : PageView) (t : TransactionId) : Prop := ∀ u, v.Owns u → u = t

/-- The image of a new page. -/
def blank (v : PageView) : Option Bytes := v.file.map fun f => Bytes.zeros f.pageSize

/-- The image that the page has in its file, or gets when it is put at the end. -/
def present (v : PageView) : Option Bytes := v.image.or v.blank

/-- The image that the page has after a transaction is aborted. -/
def before (v : PageView) (t : TransactionId) : Option Bytes := (v.kept t).or v.present

/-- What the slots of the page hold according to an image. -/
def shown (v : PageView) (image : Option Bytes) : Option Content :=
  v.file.bind fun f => image.bind fun data =>
    (Page.decode v.id f.schema f.pageSize data).toOption.map Page.content

/-- What the slots of the page hold for who fetches it. -/
def content (v : PageView) : Option Content :=
  match v.copy with
  | some page => some page.content
  | none => v.shown v.present

/-! ## What becomes of a page -/

/-- The lock of the page is granted. -/
def granted (v : PageView) (t : TransactionId) (mode : LockMode) : PageView :=
  { v with mode := fun u => if t = u then some (mode.joined (v.mode t)) else v.mode u }

/-- The lock of the page is released. -/
def released (v : PageView) (t : TransactionId) : PageView :=
  { v with mode := fun u => if t = u then none else v.mode u }

/-- A copy of the page is written early for its owner. -/
def written (v : PageView) (t : TransactionId) (page : Page) : PageView :=
  { v with
    image := some page.encode
    kept := fun u => if t = u then (v.kept t).or (some page.beforeImage) else v.kept u }

/-- The copy is written for good if a transaction has changed it. -/
def saved (v : PageView) (t : TransactionId) : PageView :=
  match v.copy with
  | none => v
  | some page =>
      if page.owner = some t then
        { v with
          image := some page.encode
          copy := some (page.keepImage.withOwner none) }
      else v

/-- Nothing is kept for a transaction, and it holds no lock. -/
def cleared (v : PageView) (t : TransactionId) : PageView :=
  { v with
    kept := fun u => if t = u then none else v.kept u
    mode := fun u => if t = u then none else v.mode u }

/-- What is left when a transaction has committed. -/
def committed (v : PageView) (t : TransactionId) : PageView := (v.saved t).cleared t

/-- What is left when a transaction has aborted. -/
def aborted (v : PageView) (t : TransactionId) : PageView :=
  { v with
    image := (v.kept t).or v.image
    copy := if v.Owns t then none else v.copy }.cleared t

/-- What goes into the ledger when the lock of the page is granted. -/
def lockEvents (v : PageView) (t : TransactionId) (mode : LockMode) : List Event :=
  if mode = .exclusive ∧ v.mode t ≠ some .exclusive then [.locked t v.id v.image] else []

/-- One step of a page, together with the ledger. -/
inductive Turn : Ledger × PageView → Ledger × PageView → Prop
  /-- Something happens to other pages. -/
  | elsewhere {l l' : Ledger} {v : PageView} : l.SameAt v.id l' → Turn (l, v) (l', v)
  /-- The page is read into the cache. -/
  | load {l : Ledger} {v : PageView} {f : TableFile} {image : Bytes} {page : Page} :
      v.copy = none → v.file = some f → v.image = some image →
        Page.decode v.id f.schema f.pageSize image = .ok page →
          Turn (l, v) (l, { v with copy := some page })
  /-- A copy without changes leaves the cache. -/
  | drop {l : Ledger} {v : PageView} {page : Page} :
      v.copy = some page → page.owner = none → Turn (l, v) (l, { v with copy := none })
  /-- A copy with changes leaves the cache after it is written. -/
  | dropWritten {l : Ledger} {v : PageView} {page : Page} {t : TransactionId} :
      v.copy = some page → page.owner = some t → v.kept t ≠ none → v.image = some page.encode →
        Turn (l, v) (l, { v with copy := none })
  /-- A copy with changes is written early. -/
  | write {l : Ledger} {v : PageView} {page : Page} {t : TransactionId} :
      v.copy = some page → page.owner = some t → Turn (l, v) (l, v.written t page)
  /-- The page is put at the end of its file. -/
  | append {l : Ledger} {v : PageView} :
      v.file ≠ none → v.image = none → Turn (l, v) (l, { v with image := v.blank })
  /-- The lock of the page is granted. -/
  | grant {l : Ledger} {v : PageView} (t : TransactionId) (mode : LockMode) :
      (mode = .exclusive → ∀ u, u ≠ t → v.mode u = none) →
        (mode = .shared → v.mode t = none → ∀ u, v.mode u ≠ some .exclusive) →
          Turn (l, v) (l.after (v.lockEvents t mode), v.granted t mode)
  /-- The lock of the page is released by a transaction that has not written it. -/
  | release {l : Ledger} {v : PageView} (t : TransactionId) :
      l.wrote t v.id = false → Turn (l, v) (l, v.released t)
  /-- The page is fetched for writing. -/
  | take {l : Ledger} {v : PageView} {page : Page} {t : TransactionId} (copy : Page) :
      v.mode t = some .exclusive → v.copy = some page →
        Turn (l, v) (l.record (.fetched t v.id .exclusive copy),
          { v with copy := some (page.withOwner (some t)) })
  /-- The page is changed by its owner. -/
  | change {l : Ledger} {v : PageView} {page page' : Page} {t : TransactionId} {change : Change} :
      v.copy = some page → page.owner = some t → change.Made page page' →
        Turn (l, v) (l.record (.changed t change), { v with copy := some page' })
  /-- A transaction is committed. -/
  | commit {l : Ledger} {v : PageView} (t : TransactionId) :
      Turn (l, v) (l.record (.committed t), v.committed t)
  /-- A transaction cannot be committed, and the page is not written. -/
  | fail {l : Ledger} {v : PageView} (t : TransactionId) :
      Turn (l, v) (l.record (.failed t), v)
  /-- A transaction cannot be committed, and the page is written before this shows. -/
  | failLate {l : Ledger} {v : PageView} (t : TransactionId) :
      Turn (l, v) (l.record (.failed t), v.saved t)
  /-- A transaction is aborted. -/
  | abort {l : Ledger} {v : PageView} (t : TransactionId) :
      Turn (l, v) (l.record (.aborted t), v.aborted t)

/-- Any number of turns. -/
abbrev Turns : Ledger × PageView → Ledger × PageView → Prop := Relation.ReflTransGen Turn

/-! ## Small facts -/

theorem owns_congr {v' : PageView} (hc : v'.owner? = v.owner?) (hk : v'.kept t = v.kept t) :
    v'.Owns t ↔ v.Owns t := by
  rw [Owns, Owns, hc, hk]

theorem owner?_of_copy {page : Page} (h : v.copy = some page) : v.owner? = page.owner := by
  rw [owner?, h]
  rfl

theorem owner?_of_none (h : v.copy = none) : v.owner? = none := by
  rw [owner?, h]
  rfl

theorem content_of_copy {page : Page} (h : v.copy = some page) : v.content = some page.content := by
  rw [content, h]

theorem content_of_none (h : v.copy = none) : v.content = v.shown v.present := by
  rw [content, h]

theorem present_of_image {image : Bytes} (h : v.image = some image) : v.present = some image := by
  rw [present, h]
  rfl

/-- A new page is the one that was there as good as. -/
theorem present_appended (h : v.image = none) :
    present { v with image := v.blank } = v.present := by
  rw [present, present, h]
  show v.blank.or v.blank = v.blank
  cases v.blank <;> rfl

theorem before_of_kept {image : Bytes} (h : v.kept t = some image) : v.before t = some image := by
  rw [before, h]
  rfl

theorem before_of_none (h : v.kept t = none) : v.before t = v.present := by
  rw [before, h]
  rfl

theorem shown_eq {f : TableFile} {image : Bytes} {page : Page} (hf : v.file = some f)
    (hd : Page.decode v.id f.schema f.pageSize image = .ok page) :
    v.shown (some image) = some page.content := by
  rw [shown, hf]
  simp only [Option.bind_some, hd]
  rfl

/-- What an image shows is what it decodes to. -/
theorem exists_decode_of_shown {image? : Option Bytes} {content : Content}
    (h : v.shown image? = some content) :
    ∃ f image stored, v.file = some f ∧ image? = some image ∧
      Page.decode v.id f.schema f.pageSize image = .ok stored ∧ stored.content = content := by
  obtain ⟨f, hf, h⟩ := Option.bind_eq_some_iff.1 h
  obtain ⟨image, hi, h⟩ := Option.bind_eq_some_iff.1 h
  obtain ⟨stored, hd, hc⟩ := Option.map_eq_some_iff.1 h
  refine ⟨f, image, stored, hf, hi, ?_, hc⟩
  cases he : Page.decode v.id f.schema f.pageSize image with
  | error fault =>
      rw [he] at hd
      cases hd
  | ok page =>
      rw [he] at hd
      cases hd
      rfl

theorem saved_of_owner {page : Page} (hc : v.copy = some page) (ho : page.owner = some t) :
    v.saved t = { v with
      image := some page.encode
      copy := some (page.keepImage.withOwner none) } := by
  rw [saved, hc]
  exact if_pos ho

theorem saved_of_ne (h : v.owner? ≠ some t) : v.saved t = v := by
  rw [saved]
  split
  · rfl
  · rename_i page hc
    rw [owner?_of_copy hc] at h
    exact if_neg h

/-- Saving a page concerns its image and its copy only. -/
theorem saved_frame (v : PageView) (t : TransactionId) :
    (v.saved t).id = v.id ∧ (v.saved t).file = v.file ∧ (v.saved t).kept = v.kept ∧
      (v.saved t).mode = v.mode := by
  rw [saved]
  split
  · exact ⟨rfl, rfl, rfl, rfl⟩
  · split <;> exact ⟨rfl, rfl, rfl, rfl⟩

@[simp] theorem id_saved : (v.saved t).id = v.id := (v.saved_frame t).1

@[simp] theorem file_saved : (v.saved t).file = v.file := (v.saved_frame t).2.1

@[simp] theorem kept_saved : (v.saved t).kept = v.kept := (v.saved_frame t).2.2.1

@[simp] theorem mode_saved : (v.saved t).mode = v.mode := (v.saved_frame t).2.2.2

theorem owner?_saved : (v.saved t).owner? = if v.owner? = some t then none else v.owner? := by
  by_cases h : v.owner? = some t
  · obtain ⟨page, hc, ho⟩ := Option.bind_eq_some_iff.1 h
    rw [saved_of_owner hc ho, if_pos h]
    rfl
  · rw [saved_of_ne h, if_neg h]

theorem mode_cleared (v : PageView) (t u : TransactionId) :
    (v.cleared t).mode u = if t = u then none else v.mode u := rfl

theorem kept_cleared (v : PageView) (t u : TransactionId) :
    (v.cleared t).kept u = if t = u then none else v.kept u := rfl

theorem mode_released (v : PageView) (t u : TransactionId) :
    (v.released t).mode u = if t = u then none else v.mode u := rfl

/-! ## Granted modes -/

section Granted

variable {mode : LockMode}

theorem mode_granted (v : PageView) (t : TransactionId) (mode : LockMode) (u : TransactionId) :
    (v.granted t mode).mode u =
      if t = u then some (mode.joined (v.mode t)) else v.mode u := rfl

/-- A transaction that holds the page in exclusive mode keeps it so. -/
theorem exclusive_granted (h : v.mode u = some .exclusive) :
    (v.granted t mode).mode u = some .exclusive := by
  rw [mode_granted]
  split
  · rename_i htu
    subst htu
    rw [h]
    cases mode <;> rfl
  · exact h

/-- It held the page so before, unless it has just been granted the exclusive lock. -/
theorem exclusive_of_granted (he : ¬ (mode = .exclusive ∧ v.mode t ≠ some .exclusive))
    (h : (v.granted t mode).mode u = some .exclusive) : v.mode u = some .exclusive := by
  rw [mode_granted] at h
  split at h
  · rename_i htu
    subst htu
    cases mode with
    | exclusive =>
        by_contra hm
        exact he ⟨rfl, hm⟩
    | shared =>
        cases hm : v.mode t with
        | none =>
            rw [hm] at h
            cases h
        | some m =>
            rw [hm] at h
            exact h
  · exact h

/-- An exclusive holder is the only one also after a grant. -/
theorem alone_granted (h : ∀ {t u}, v.mode t = some .exclusive → u ≠ t → v.mode u = none)
    (hx : mode = .exclusive → ∀ u, u ≠ t → v.mode u = none)
    (hs : mode = .shared → v.mode t = none → ∀ u, v.mode u ≠ some .exclusive)
    {a b : TransactionId} (ha : (v.granted t mode).mode a = some .exclusive) (hb : b ≠ a) :
    (v.granted t mode).mode b = none := by
  rw [mode_granted] at ha ⊢
  split at ha
  · -- The new holder is the exclusive one, so nobody else may hold the page.
    rename_i hta
    subst hta
    rw [if_neg (Ne.symm hb)]
    cases mode with
    | exclusive => exact hx rfl b hb
    | shared =>
        cases hm : v.mode t with
        | none =>
            rw [hm] at ha
            cases ha
        | some m =>
            rw [hm] at ha
            exact h (hm.trans ha) hb
  · rename_i hta
    split
    · -- Beside an exclusive holder nobody is granted the page.
      rename_i htb
      subst htb
      cases mode with
      | exclusive =>
          rw [hx rfl a (Ne.symm hta)] at ha
          cases ha
      | shared => exact absurd ha (hs rfl (h ha hb) a)
    · exact h ha hb

end Granted

/-! ## The owners after each change -/

theorem owns_load {page : Page} (hc : v.copy = none) (ho : page.owner = none) :
    Owns { v with copy := some page } u ↔ v.Owns u := by
  refine owns_congr ?_ rfl
  rw [owner?_of_none hc]
  exact ho

theorem owns_uncached (h : ∀ t, v.owner? = some t → v.kept t ≠ none) :
    Owns { v with copy := none } u ↔ v.Owns u := by
  constructor
  · rintro (hc | hk)
    · cases hc
    · exact Or.inr hk
  · rintro (hc | hk)
    · exact Or.inr (h u hc)
    · exact Or.inr hk

theorem owns_written {page : Page} (hc : v.copy = some page) (ho : page.owner = some t) :
    (v.written t page).Owns u ↔ v.Owns u := by
  have howner : v.owner? = some t := by rw [owner?_of_copy hc, ho]
  by_cases htu : t = u
  · subst htu
    exact ⟨fun _ => Or.inl howner, fun _ => Or.inl howner⟩
  · refine owns_congr rfl ?_
    simp [written, htu]

theorem owns_changed {page page' : Page} (hc : v.copy = some page)
    (ho : page'.owner = page.owner) : Owns { v with copy := some page' } u ↔ v.Owns u := by
  refine owns_congr ?_ rfl
  rw [owner?_of_copy hc, ← ho]
  rfl

theorem owns_cleared (h : v.owner? ≠ some t) : (v.cleared t).Owns u ↔ t ≠ u ∧ v.Owns u := by
  by_cases htu : t = u
  · subst htu
    constructor
    · rintro (hc | hk)
      · exact absurd hc h
      · simp [cleared] at hk
    · rintro ⟨hne, -⟩
      exact absurd rfl hne
  · have hk : (v.cleared t).kept u = v.kept u := by simp [cleared, htu]
    rw [owns_congr (show (v.cleared t).owner? = v.owner? from rfl) hk]
    simp [htu]

end PageView

end PagedStore
