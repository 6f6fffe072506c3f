import PagedStore.StoreError

/-!
# Settings

The size of a page in bytes and the number of pages that the cache may hold.
Both have to be positive.  The page size is checked first.
-/

namespace PagedStore

/-- The settings of a store. -/
structure Settings where
  /-- The bytes of one page. -/
  pageSize : Nat := 4096
  /-- The pages that the cache may hold. -/
  poolPages : Nat := 50
deriving DecidableEq, Repr, Inhabited

namespace Settings

/-- The first rule that the settings break, if they break one. -/
def fault? (s : Settings) : Option SettingsFault :=
  if s.pageSize = 0 then some .zeroPageSize
  else if s.poolPages = 0 then some .zeroPoolPages
  else none

theorem fault?_eq_none_iff {s : Settings} :
    s.fault? = none ↔ 0 < s.pageSize ∧ 0 < s.poolPages := by
  unfold fault?
  split
  · simp; omega
  · split
    · simp; omega
    · simp; omega

end Settings

end PagedStore
