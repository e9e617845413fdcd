import LibShv.StringViewList

/-!
# LibShv.ShvPath.MatchWild

Patterns of paths (`ShvPath::matchWild`). In a pattern `*` stands for one segment and `**`
for any number of them. The code looks for the segment that comes after a `**` in the
pattern, as it is, and goes on at the first place where it finds it.
-/

namespace LibShv

namespace ShvPath

/-- `*`. -/
def anySegment : Bytes := ascii "*"

/-- `**`. -/
def anySegments : Bytes := ascii "**"

/-! ## the code -/

/-- `ShvPath::matchWild`, from the rest of the path and the rest of the pattern on. -/
def matchWild : (path_lst pattern_lst : StringViewList) → Bool
  | [], [] => true
  | _ :: _, [] => false
  | [], [pt] => pt = anySegments
  | [], _ :: _ :: _ => false
  | ph :: path, pt :: pattern =>
    if pt = anySegment then matchWild path pattern
    else if pt = anySegments then
      match pattern with
      | [] => true
      | pt2 :: pattern =>
        match (ph :: path).dropWhile (· ≠ pt2) with
        | [] => false
        | _ :: path => matchWild path pattern
    else if ph = pt then matchWild path pattern
    else false

/-! ## what patterns mean -/

/-- The segments that one segment of a pattern may stand for. -/
def StandsFor (pt : Bytes) (segments : StringViewList) : Prop :=
  if pt = anySegments then True
  else if pt = anySegment then segments.length = 1
  else segments = [pt]

/-- Some choice of segments for each wildcard makes the pattern equal the path. -/
def Glob (pattern path : StringViewList) : Prop :=
  ∃ choice : List StringViewList, List.Forall₂ StandsFor pattern choice ∧ choice.flatten = path

/-- The pattern matches where the segment after a `**` is no wildcard, and the `**` stands for
segments with `P`. -/
def GlobWith (P : Bytes → StringViewList → Prop) : (pattern path : StringViewList) → Prop
  | [], path => path = []
  | [pt], path => if pt = anySegments then True else ∃ ph, path = [ph] ∧ (pt = anySegment ∨ ph = pt)
  | pt :: pt2 :: pattern, path =>
    if pt = anySegments then
      ∃ run rest, path = run ++ pt2 :: rest ∧ P pt2 run ∧ GlobWith P pattern rest
    else ∃ ph rest, path = ph :: rest ∧ (pt = anySegment ∨ ph = pt) ∧ GlobWith P (pt2 :: pattern) rest

/-- The segment after a `**` is no wildcard. -/
abbrev LiteralGlob : (pattern path : StringViewList) → Prop := GlobWith fun _ _ => True

/-- Besides, a `**` goes up to the first place where the segment after it stands. -/
abbrev FirstGlob : (pattern path : StringViewList) → Prop := GlobWith fun pt2 run => pt2 ∉ run

variable {pattern path : StringViewList}

/-! ## the code and the first places -/

theorem dropWhile_eq_cons_iff {pt2 : Bytes} {segments : StringViewList} {ph : Bytes}
    {rest : StringViewList} :
    segments.dropWhile (· ≠ pt2) = ph :: rest ↔
      ph = pt2 ∧ ∃ run, segments = run ++ pt2 :: rest ∧ pt2 ∉ run := by
  induction segments with
  | nil => simp
  | cons s segments ih =>
    by_cases hs : s = pt2
    · subst hs
      rw [List.dropWhile_cons_of_neg (by simp), List.cons.injEq]
      constructor
      · rintro ⟨rfl, rfl⟩
        exact ⟨rfl, [], rfl, by simp⟩
      · rintro ⟨rfl, run, hrun, hnot⟩
        cases run with
        | nil => exact ⟨rfl, (List.cons.inj hrun).2⟩
        | cons r run => exact absurd (List.cons.inj hrun).1 (by simpa using fun h => hnot (by simp [h]))
    · rw [List.dropWhile_cons_of_pos (by simpa using hs), ih]
      refine and_congr_right fun _ => ?_
      constructor
      · rintro ⟨run, rfl, hnot⟩
        exact ⟨s :: run, rfl, by simpa [hnot] using fun h => hs h.symm⟩
      · rintro ⟨run, hrun, hnot⟩
        cases run with
        | nil => exact absurd (List.cons.inj hrun).1 hs
        | cons r run =>
          exact ⟨run, (List.cons.inj hrun).2, fun h => hnot (List.mem_cons_of_mem _ h)⟩

/-- One segment of the pattern that is not `**`. -/
theorem globWith_cons {P : Bytes → StringViewList → Prop} {pt ph : Bytes} (h : pt ≠ anySegments) :
    GlobWith P (pt :: pattern) (ph :: path) ↔
      (pt = anySegment ∨ ph = pt) ∧ GlobWith P pattern path := by
  cases pattern with
  | nil =>
    simp only [GlobWith, if_neg h]
    constructor
    · rintro ⟨ph', heq, hpt⟩
      obtain ⟨rfl, rfl⟩ := List.cons.inj heq
      exact ⟨hpt, rfl⟩
    · rintro ⟨hpt, rfl⟩
      exact ⟨ph, rfl, hpt⟩
  | cons pt2 pattern =>
    rw [GlobWith, if_neg h]
    constructor
    · rintro ⟨ph', rest, heq, hpt, hrest⟩
      obtain ⟨rfl, rfl⟩ := List.cons.inj heq
      exact ⟨hpt, hrest⟩
    · rintro ⟨hpt, hrest⟩
      exact ⟨ph, path, rfl, hpt, hrest⟩

theorem globWith_nil {P : Bytes → StringViewList → Prop} {pt : Bytes} (h : pt ≠ anySegments) :
    ¬GlobWith P (pt :: pattern) [] := by
  cases pattern with
  | nil =>
    rw [GlobWith, if_neg h]
    rintro ⟨ph, heq, -⟩
    contradiction
  | cons pt2 pattern =>
    rw [GlobWith, if_neg h]
    rintro ⟨ph, rest, heq, -⟩
    contradiction

theorem globWith_last {P : Bytes → StringViewList → Prop} : GlobWith P [anySegments] path := by
  rw [GlobWith, if_pos rfl]
  trivial

theorem globWith_segments {P : Bytes → StringViewList → Prop} {pt2 : Bytes} :
    GlobWith P (anySegments :: pt2 :: pattern) path ↔
      ∃ run rest, path = run ++ pt2 :: rest ∧ P pt2 run ∧ GlobWith P pattern rest := by
  rw [GlobWith, if_pos rfl]

/-- The code matches the patterns in which every `**` may go up to the first place. -/
theorem matchWild_iff_firstGlob : matchWild path pattern = true ↔ FirstGlob pattern path := by
  unfold FirstGlob
  fun_induction matchWild path pattern with
  | case1 => simp [GlobWith]
  | case2 ph path => simp [GlobWith]
  | case3 pt =>
    by_cases h : pt = anySegments
    · simp [h, globWith_last]
    · simp [h, globWith_nil h]
  | case4 pt pt2 pattern =>
    by_cases h : pt = anySegments
    · simp [GlobWith, h]
    · simp [globWith_nil h]
  | case5 ph path pattern ih =>
    rw [ih, globWith_cons (by decide)]
    simp
  | case6 ph path h => simp [globWith_last]
  | case7 ph path pt2 pattern hdrop h =>
    rw [globWith_segments]
    refine iff_of_false (by simp) ?_
    rintro ⟨run, rest, hpath, hnot, -⟩
    rw [List.dropWhile_eq_nil_iff, hpath] at hdrop
    simpa using hdrop pt2 (by simp)
  | case8 ph path pt2 pattern ph' rest hdrop h ih =>
    rw [ih, globWith_segments]
    constructor
    · intro hrest
      obtain ⟨-, run, hpath, hnot⟩ := dropWhile_eq_cons_iff.mp hdrop
      exact ⟨run, rest, hpath, hnot, hrest⟩
    · rintro ⟨run, rest', hpath, hnot, hrest⟩
      have hdrop' := dropWhile_eq_cons_iff.mpr ⟨rfl, run, hpath, hnot⟩
      rw [hdrop, List.cons.injEq] at hdrop'
      rw [hdrop'.2]
      exact hrest
  | case9 path pt pattern hone hany ih =>
    rw [ih, globWith_cons hany]
    simp
  | case10 ph path pt pattern hone hany hne =>
    rw [globWith_cons hany]
    simp [hone, hne]

/-! ## what a match says -/

theorem standsFor_self (pt : Bytes) : StandsFor pt [pt] := by
  rw [StandsFor]
  split
  · trivial
  · split <;> rfl

theorem standsFor_segments (run : StringViewList) : StandsFor anySegments run := by
  rw [StandsFor, if_pos rfl]
  trivial

theorem standsFor_one {pt ph : Bytes} (h : pt = anySegment ∨ ph = pt) : StandsFor pt [ph] := by
  obtain rfl | rfl := h
  · rw [StandsFor, if_neg (by decide), if_pos rfl]
    rfl
  · exact standsFor_self ph

theorem exists_of_standsFor {pt : Bytes} {run : StringViewList} (hany : pt ≠ anySegments)
    (h : StandsFor pt run) : ∃ ph, run = [ph] ∧ (pt = anySegment ∨ ph = pt) := by
  rw [StandsFor, if_neg hany] at h
  by_cases hone : pt = anySegment
  · rw [if_pos hone] at h
    obtain ⟨ph, rfl⟩ := List.length_eq_one_iff.mp h
    exact ⟨ph, rfl, .inl hone⟩
  · rw [if_neg hone] at h
    exact ⟨pt, h, .inr rfl⟩

theorem Glob.cons {pt : Bytes} {run : StringViewList} (h : StandsFor pt run)
    (hrest : Glob pattern path) : Glob (pt :: pattern) (run ++ path) := by
  obtain ⟨choice, hstands, rfl⟩ := hrest
  exact ⟨run :: choice, .cons h hstands, rfl⟩

theorem glob_nil : Glob [] [] := ⟨[], .nil, rfl⟩

theorem glob_cons_iff {pt : Bytes} :
    Glob (pt :: pattern) path ↔
      ∃ run rest, path = run ++ rest ∧ StandsFor pt run ∧ Glob pattern rest := by
  constructor
  · rintro ⟨choice, hstands, rfl⟩
    cases hstands with
    | cons hrun hrest => exact ⟨_, _, rfl, hrun, _, hrest, rfl⟩
  · rintro ⟨run, rest, rfl, hrun, hrest⟩
    exact hrest.cons hrun

/-- With no wildcard after a `**` a match is one of the pattern. -/
theorem GlobWith.glob {P : Bytes → StringViewList → Prop} (h : GlobWith P pattern path) :
    Glob pattern path := by
  fun_induction GlobWith P pattern path with
  | case1 path =>
    rw [h]
    exact glob_nil
  | case2 path =>
    rw [← List.append_nil path]
    exact glob_nil.cons (standsFor_segments path)
  | case3 pt path hany =>
    obtain ⟨ph, rfl, hpt⟩ := h
    exact glob_nil.cons (standsFor_one hpt)
  | case4 pt2 pattern path ih =>
    obtain ⟨run, rest, rfl, -, hrest⟩ := h
    exact ((ih rest hrest).cons (standsFor_self pt2)).cons (standsFor_segments run)
  | case5 pt pt2 pattern path hany ih =>
    obtain ⟨ph, rest, rfl, hpt, hrest⟩ := h
    exact (ih rest hrest).cons (standsFor_one hpt)

theorem FirstGlob.literal (h : FirstGlob pattern path) : LiteralGlob pattern path := by
  unfold FirstGlob at h
  fun_induction GlobWith (fun pt2 run => pt2 ∉ run) pattern path with
  | case1 path => exact h
  | case2 path => exact globWith_last
  | case3 pt path hany =>
    rw [LiteralGlob, GlobWith, if_neg hany]
    exact h
  | case4 pt2 pattern path ih =>
    obtain ⟨run, rest, rfl, -, hrest⟩ := h
    exact globWith_segments.mpr ⟨run, rest, rfl, trivial, ih rest hrest⟩
  | case5 pt pt2 pattern path hany ih =>
    obtain ⟨ph, rest, rfl, hpt, hrest⟩ := h
    exact (globWith_cons hany).mpr ⟨hpt, ih rest hrest⟩

/-! ## patterns for which the first place is enough -/

/-- The pattern begins with a `**`, or with segments `*` and then a `**`. -/
def BeginsOpen : StringViewList → Prop
  | [] => False
  | pt :: pattern => pt = anySegments ∨ pt = anySegment ∧ BeginsOpen pattern

/-- After every `**` that is not the last segment there is one that is no wildcard, and from there
on there are only segments `*` up to the next `**`. -/
def Unambiguous : StringViewList → Prop
  | pt :: pt2 :: pattern =>
    (pt = anySegments → pt2 ≠ anySegment ∧ pt2 ≠ anySegments ∧ BeginsOpen pattern) ∧
      Unambiguous (pt2 :: pattern)
  | _ => True

theorem Unambiguous.tail {pt : Bytes} (h : Unambiguous (pt :: pattern)) : Unambiguous pattern := by
  cases pattern with
  | nil => trivial
  | cons pt2 pattern => exact h.2

/-- A pattern that begins open matches whatever stands in front of what it matches, too. -/
theorem Glob.prepend (hopen : BeginsOpen pattern) (h : Glob pattern path)
    (more : StringViewList) : Glob pattern (more ++ path) := by
  induction pattern generalizing path more with
  | nil => exact hopen.elim
  | cons pt pattern ih =>
    obtain ⟨run, rest, rfl, hrun, hrest⟩ := glob_cons_iff.mp h
    obtain rfl | ⟨rfl, hopen⟩ := hopen
    · rw [← List.append_assoc]
      exact hrest.cons (standsFor_segments _)
    · obtain ⟨ph, rfl, -⟩ := exists_of_standsFor (by decide) hrun
      cases more with
      | nil => exact h
      | cons s more =>
        -- the `*` takes the first of them
        have hmore := ih hopen hrest (more ++ [ph])
        rw [List.append_assoc] at hmore
        have hstar : StandsFor anySegment [s] := standsFor_one (.inl rfl)
        have hall := hmore.cons hstar
        exact hall

theorem exists_of_first {pt2 : Bytes} {run run' rest rest' : StringViewList} (hnot : pt2 ∉ run)
    (h : run' ++ pt2 :: rest' = run ++ pt2 :: rest) : ∃ more, rest = more ++ rest' := by
  obtain ⟨mid, hrun, hmid⟩ | ⟨mid, hrun, hmid⟩ := List.append_eq_append_iff.mp h
  · cases mid with
    | nil => exact ⟨[], by simpa using hmid.symm⟩
    | cons s mid =>
      rw [hrun, ← (List.cons.inj hmid).1] at hnot
      exact absurd (by simp) hnot
  · cases mid with
    | nil => exact ⟨[], by simpa using hmid⟩
    | cons s mid => exact ⟨mid ++ [pt2], by simpa using (List.cons.inj hmid).2⟩

/-- The first place is as good as any other. -/
theorem Glob.first (hpattern : Unambiguous pattern) (h : Glob pattern path) :
    FirstGlob pattern path := by
  unfold FirstGlob
  fun_induction GlobWith (fun pt2 run => pt2 ∉ run) pattern path with
  | case1 path =>
    obtain ⟨choice, hstands, rfl⟩ := h
    cases hstands
    rfl
  | case2 path => trivial
  | case3 pt path hany =>
    obtain ⟨run, rest, rfl, hrun, choice, hstands, rfl⟩ := glob_cons_iff.mp h
    cases hstands
    obtain ⟨ph, rfl, hpt⟩ := exists_of_standsFor hany hrun
    exact ⟨ph, rfl, hpt⟩
  | case4 pt2 pattern path ih =>
    obtain ⟨hone, hany, hopen⟩ := hpattern.1 rfl
    obtain ⟨run', rest₁, rfl, -, h₁⟩ := glob_cons_iff.mp h
    obtain ⟨run₂, rest', rfl, hrun₂, h₂⟩ := glob_cons_iff.mp h₁
    rw [StandsFor, if_neg hany, if_neg hone] at hrun₂
    subst hrun₂
    obtain ⟨run, rest, hpath, hnot⟩ :=
      List.eq_append_cons_of_mem (show pt2 ∈ run' ++ ([pt2] ++ rest') by simp)
    obtain ⟨more, hmore⟩ := exists_of_first hnot hpath
    refine ⟨run, rest, hpath, hnot, ih rest hpattern.tail.tail ?_⟩
    rw [hmore]
    exact h₂.prepend hopen more
  | case5 pt pt2 pattern path hany ih =>
    obtain ⟨run, rest, rfl, hrun, hrest⟩ := glob_cons_iff.mp h
    obtain ⟨ph, rfl, hpt⟩ := exists_of_standsFor hany hrun
    exact ⟨ph, rest, rfl, hpt, ih rest hpattern.tail hrest⟩

/-- What matches is matched by the pattern, with no wildcard after a `**`; a pattern that matches
where every `**` goes up to the first place is found; and for unambiguous patterns the two are
the same. -/
theorem matchWild_glob (path pattern : StringViewList) :
    (matchWild path pattern = true → LiteralGlob pattern path ∧ Glob pattern path) ∧
    (FirstGlob pattern path → matchWild path pattern = true) ∧
    (Unambiguous pattern → (matchWild path pattern = true ↔ Glob pattern path)) := by
  refine ⟨?_, matchWild_iff_firstGlob.mpr, ?_⟩
  · intro h
    have hfirst := matchWild_iff_firstGlob.mp h
    exact ⟨hfirst.literal, hfirst.glob⟩
  · intro hpattern
    rw [matchWild_iff_firstGlob]
    exact ⟨fun h => h.glob, fun h => h.first hpattern⟩

/-- The pattern `**/**` does not match a path, although its wildcards may stand for it. -/
theorem not_matchWild_glob :
    Glob [anySegments, anySegments] [ascii "aa", ascii "bb", ascii "cc", ascii "dd"] ∧
    matchWild [ascii "aa", ascii "bb", ascii "cc", ascii "dd"] [anySegments, anySegments] =
      false := by
  refine ⟨⟨[[], [ascii "aa", ascii "bb", ascii "cc", ascii "dd"]], ?_, rfl⟩, by decide⟩
  exact .cons (standsFor_segments _) (.cons (standsFor_segments _) .nil)

/-- Where the segment after a `**` stands once more behind. -/
example : matchWild [ascii "aa", ascii "aa", ascii "bb"] [anySegments, ascii "aa", ascii "bb"] =
    false := by decide

end ShvPath

end LibShv
