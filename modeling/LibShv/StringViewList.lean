import LibShv.ShvPath

/-!
# LibShv.StringViewList

The segments of a path (`stringview.cpp`).
-/

namespace LibShv

/-- `StringViewList`. -/
abbrev StringViewList := List Bytes

namespace StringViewList

/-- `join('/')`: the segments as they are, a delimiter between two of them. -/
def join (lst : StringViewList) : Bytes := [SHV_PATH_DELIM].intercalate lst

/-- `indexOf(str) != -1`. -/
def hasElement (lst : StringViewList) (str : Bytes) : Bool := lst.any (· == str)

@[simp] theorem join_nil : join [] = [] := rfl

@[simp] theorem join_singleton (s : Bytes) : join [s] = s := by
  simp [join, List.intercalate]

end StringViewList

end LibShv
