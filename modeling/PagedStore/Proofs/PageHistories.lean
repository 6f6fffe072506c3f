import PagedStore.Proofs.Images

/-!
# What is done to a page, and its image

A page is made with all slots free, or read from an image (`Page.Origin`).  Then rows are
put in and taken out, the page gets owners and loses them, and its before image is brought
up to date.  An attempt that fails leaves the page as it is (`Page.act`).

Whatever is done, the page stays valid and keeps its identity, its schema and its size
(`Page.Kin.actAll`).  So its image has the size of a page at any time, and reads back as a
page with the same slots (`Page.reads_back`).

A row that is put in is valid.  There are no others: rows are made from values, get single
values replaced, or are read, and all of this gives valid rows (`Row.ofFields_eq_ok_iff`,
`Row.Valid.setField`, `Row.valid_of_decode`).
-/

namespace PagedStore

/-- A row stays valid when one of its values is replaced. -/
theorem Row.Valid.setField {r r' : Row} {i : Nat} {f : Field} (h : r.Valid)
    (hs : r.setField i f = .ok r') : r'.Valid := by
  rw [Row.setField] at hs
  split at hs
  · cases hs
  · split at hs
    · cases hs
    · rename_i type htype
      split at hs
      · rename_i u hc
        cases hs
        obtain ⟨hf, hlong⟩ := Row.checkField_eq_ok_iff.1 hc
        have htypes : r.schema.types[i]? = some f.type := by
          rw [hf, ← htype, Schema.typeAt?, Schema.types, List.getElem?_map]
        refine ⟨?_, ?_⟩
        · show (r.fields.set i f).map Field.type = r.schema.types
          obtain ⟨hi, hget⟩ := List.getElem?_eq_some_iff.1 htypes
          rw [List.map_set, h.1, ← hget, List.set_getElem_self]
        · intro g hg
          rcases List.mem_or_eq_of_mem_set hg with hg | rfl
          · exact h.2 g hg
          · exact hlong
      · cases hs

namespace Page

variable {id : PageId} {schema : Schema} {pageSize : Nat} {p p₀ : Page}

/-! ## Actions -/

/-- One thing that is done to a page. -/
inductive Action where
  /-- A row is put in. -/
  | insert (row : Row) (valid : row.Valid)
  /-- The row at an address is taken out. -/
  | delete (record : Option RecordId)
  /-- The page gets an owner, or has none from then on. -/
  | mark (owner : Option TransactionId)
  /-- The present image becomes the before image. -/
  | keepImage

/-- The page after an action.  An attempt that fails leaves it as it is. -/
def act (p : Page) : Action → Page
  | .insert row _ =>
      match p.insert row with
      | .ok (_, p') => p'
      | .error _ => p
  | .delete record =>
      match p.delete record with
      | .ok p' => p'
      | .error _ => p
  | .mark owner => p.withOwner owner
  | .keepImage => p.keepImage

/-- The page after many actions, one after another. -/
def actAll (p : Page) (actions : List Action) : Page := actions.foldl act p

/-- How a page comes to be: all its slots are free, or it is read from an image. -/
inductive Origin (id : PageId) (schema : Schema) (pageSize : Nat) (p : Page) : Prop
  | fresh (h : Page.fresh id schema pageSize = .ok p)
  | read (data : Bytes) (h : Page.decode id schema pageSize data = .ok p)

/-- A valid page of an identity, a schema and a size. -/
structure Kin (id : PageId) (schema : Schema) (pageSize : Nat) (p : Page) : Prop where
  valid : p.Valid
  id_eq : p.id = id
  schema_eq : p.schema = schema
  pageSize_eq : p.pageSize = pageSize

theorem Origin.kin (h : Origin id schema pageSize p) : Kin id schema pageSize p := by
  cases h with
  | fresh h =>
      rw [Page.fresh] at h
      split at h
      · cases h
        exact ⟨valid_empty id schema pageSize, rfl, rfl, rfl⟩
      · cases h
  | read data h =>
      obtain ⟨hv, hid, hschema, hsize, -, -⟩ := decode_eq_ok h
      exact ⟨hv, hid, hschema, hsize⟩

/-- An action keeps a page valid, whether it fails or not. -/
theorem Kin.act (h : Kin id schema pageSize p) (a : Action) : Kin id schema pageSize (p.act a) := by
  cases a with
  | insert row hr =>
      rw [Page.act]
      split
      · rename_i record p' hi
        have hv := h.valid.insert hr hi
        obtain ⟨-, -, rfl⟩ := insert_eq_ok hi
        exact ⟨hv, h.id_eq, h.schema_eq, h.pageSize_eq⟩
      · exact h
  | delete record =>
      rw [Page.act]
      split
      · rename_i p' hd
        cases record with
        | none => cases hd
        | some record =>
            have hv := h.valid.delete hd
            obtain ⟨-, rfl⟩ := delete_eq_ok hd
            exact ⟨hv, h.id_eq, h.schema_eq, h.pageSize_eq⟩
      · exact h
  | mark owner => exact ⟨h.valid.withOwner owner, h.id_eq, h.schema_eq, h.pageSize_eq⟩
  | keepImage => exact ⟨h.valid.keepImage, h.id_eq, h.schema_eq, h.pageSize_eq⟩

theorem Kin.actAll (h : Kin id schema pageSize p) (actions : List Action) :
    Kin id schema pageSize (p.actAll actions) := by
  induction actions generalizing p with
  | nil => exact h
  | cons a actions ih => exact ih (h.act a)

/-! ## Reading back -/

/-- A page that was read from the image of another: its slots show the same, it has no
owner, and its before image is that image. -/
structure ReadFrom (p q : Page) : Prop where
  length_slots : q.slots.length = p.slots.length
  used : ∀ slot, q.isUsed slot = p.isUsed slot
  fields : ∀ slot, (q.rowAt? slot).map Row.fields = (p.rowAt? slot).map Row.fields
  recordId : ∀ slot, (q.rowAt? slot).map Row.recordId = (p.rowAt? slot).map Row.recordId
  countFree : q.countFree = p.countFree
  owner : q.owner = none
  beforeImage : q.beforeImage = p.encode

theorem rowAt?_reread (p : Page) (slot : Nat) :
    p.reread.rowAt? slot = (p.rowAt? slot).map (underSchema p.schema) := by
  unfold rowAt? reread
  rw [List.getElem?_map]
  rcases p.slots[slot]? with _ | (_ | row) <;> rfl

theorem countFree_reread (p : Page) : p.reread.countFree = p.countFree := by
  unfold countFree reread
  rw [List.countP_map]
  exact congrArg (List.countP · p.slots) (funext fun entry => by cases entry <;> rfl)

/-- Under another schema a row has the values and the address that it had. -/
theorem readFrom_reread (p : Page) : ReadFrom p p.reread where
  length_slots := List.length_map _
  used slot := by rw [isUsed, isUsed, rowAt?_reread, Option.isSome_map]
  fields slot := by rw [rowAt?_reread, Option.map_map]; rfl
  recordId slot := by rw [rowAt?_reread, Option.map_map]; rfl
  countFree := p.countFree_reread
  owner := rfl
  beforeImage := rfl

/-- Whatever was done to a page, its image has the size of a page, and reads back as a page
whose slots show the same. -/
theorem reads_back (h : Origin id schema pageSize p₀) (actions : List Action) :
    (p₀.actAll actions).encode.length = pageSize ∧
      ∃ q, decode id schema pageSize (p₀.actAll actions).encode = .ok q ∧
        ReadFrom (p₀.actAll actions) q := by
  obtain ⟨hv, hid, hschema, hsize⟩ := h.kin.actAll actions
  have hdecode := decode_encode hv
  rw [hid, hschema, hsize] at hdecode
  exact ⟨by rw [length_encode hv, hsize], _, hdecode, readFrom_reread _⟩

namespace Small

/-- A column of numbers and one of texts. -/
def columns : Schema := { columns := [{ type := .int }, { type := .text }] }

/-- Three rows fill a page of 411 bytes.  The second is taken out, and a row without columns
does not fit. -/
def actions : List Action :=
  [.insert { schema := columns, fields := [.int 7, .text "é"] } (by decide),
   .insert { schema := columns, fields := [.int (-1), .text ""] } (by decide),
   .insert { schema := columns, fields := [.int 0, .text "a"] } (by decide),
   .delete (some { page := { table := ⟨1⟩, number := 0 }, slot := 1 }), .mark (some ⟨3⟩),
   .insert { schema := { columns := [] }, fields := [] } (by decide)]

end Small

theorem reads_back_small :
    ((empty ⟨⟨1⟩, 0⟩ Small.columns 411).actAll Small.actions).encode.length = 411 ∧
      ∃ q, decode ⟨⟨1⟩, 0⟩ Small.columns 411
          ((empty ⟨⟨1⟩, 0⟩ Small.columns 411).actAll Small.actions).encode = .ok q ∧
        ReadFrom ((empty ⟨⟨1⟩, 0⟩ Small.columns 411).actAll Small.actions) q :=
  reads_back (.fresh rfl) Small.actions

end Page

end PagedStore
