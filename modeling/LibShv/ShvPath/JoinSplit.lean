import LibShv.ShvPath

/-!
# LibShv.ShvPath.JoinSplit

Names that are joined to a path and split again (`ShvPath::joinDirs`, `ShvPath::split`).
A name with a slash in it is put in quotes; there is no way to write a quote.
-/

namespace LibShv

/-- `ShvPath::joinDirs` of strings: each with a slash in it is put in quotes. -/
def joinStringDirs (dirs : List Bytes) : Bytes :=
  dirs.foldl (fun ret s =>
    if s = [] then ret
    else
      let need_quotes := decide (SHV_PATH_DELIM ∈ s)
      let ret := if ret ≠ [] then ret ++ [SHV_PATH_DELIM] else ret
      if need_quotes then ret ++ SHV_PATH_QUOTE :: s ++ [SHV_PATH_QUOTE] else ret ++ s) []

theorem joinStringDirs_eq (dirs : List Bytes) :
    joinStringDirs dirs =
      QuotedSplit.joinWith SHV_PATH_DELIM
        (QuotedSplit.quoteDelims SHV_PATH_DELIM SHV_PATH_QUOTE) dirs := by
  rw [joinStringDirs, QuotedSplit.joinWith]
  congr 1
  funext ret s
  by_cases hs : s = []
  · rw [if_pos hs, if_pos hs]
  · rw [if_neg hs, if_neg hs, QuotedSplit.quoteDelims]
    by_cases hslash : SHV_PATH_DELIM ∈ s <;> by_cases hret : ret = [] <;> simp [hslash, hret]

/-- A name that comes back after it is joined as a string: no slash in it is in quotes of its own,
and without a slash there are no quotes around it. -/
def PlainString (dir : Bytes) : Prop :=
  dir ≠ [] ∧
    if SHV_PATH_DELIM ∈ dir then
      QuotedSplit.pieces SHV_PATH_DELIM SHV_PATH_QUOTE true dir = [dir]
    else ¬QuotedSplit.Quoted SHV_PATH_QUOTE dir

/-- The names that come back are those with an even number of quotes, except for the last, in
which quotes stand neither around the name nor around a slash. -/
theorem splitPath_joinDirs_eq_iff (dirs : List Bytes) :
    (splitPath (joinDirs dirs) = dirs ↔
      (∀ dir ∈ dirs.dropLast, Even (dir.count SHV_PATH_QUOTE)) ∧ ∀ dir ∈ dirs, PlainDir dir) ∧
    (splitPath (joinStringDirs dirs) = dirs ↔
      (∀ dir ∈ dirs.dropLast, Even (dir.count SHV_PATH_QUOTE)) ∧
        ∀ dir ∈ dirs, PlainString dir) := by
  rw [← QuotedSplit.closed_iff, splitPath_eq_split, joinDirs_eq, splitPath_eq_split,
    joinStringDirs_eq]
  refine ⟨QuotedSplit.split_join_eq_iff delim_ne_quote dirs, ?_⟩
  rw [QuotedSplit.split_joinWith_eq_iff delim_ne_quote (by decide) QuotedSplit.isOpen_quoteDelims
    (QuotedSplit.weights_split_quoteDelims delim_ne_quote)]
  simp only [QuotedSplit.split_quoteDelims_eq_iff delim_ne_quote, PlainString]

/-- Quotes around a name are lost, and an odd one takes in the slash behind the name. -/
theorem not_splitPath_joinDirs :
    splitPath (joinDirs [ascii "'a'"]) = [ascii "a"] ∧
    splitPath (joinDirs [ascii "a'", ascii "b"]) = [ascii "a'/b"] ∧
    splitPath (joinStringDirs [ascii "'a'"]) = [ascii "a"] ∧
    splitPath (joinStringDirs [ascii "a'", ascii "b"]) = [ascii "a'/b"] := by
  refine ⟨by decide, by decide, by decide, by decide⟩

/-- A slash that a name has outside of its own quotes is kept. -/
example : splitPath (joinDirs [ascii "a/b", ascii "c"]) = [ascii "a/b", ascii "c"] := by decide

end LibShv
