import LibShv.CponReader.Tokens

/-!
# LibShv.CCpon.Comments

What `ccpon_unpack_skip_insignificant` makes of comments and of a lone slash.

In a block comment the byte after an asterisk is taken without being looked at for
another asterisk, so that a run of asterisks goes in pairs. A comment is closed, and
the end of the input is noticed, where the number of asterisks before it is even.
-/

namespace LibShv.CCpon

open ByteReader

def slash : UInt8 := 0x2f
def asterisk : UInt8 := 0x2a

/-- The run of the skipper on a text. -/
abbrev skip (text : Bytes) : EStateM.Result Fault (Cursor UnpackContext) (Option UInt8) :=
  skipInsignificant (openStream text)

/-- The text is passed over, and the skipper is outside comments behind it. -/
abbrev Passed (text : Bytes) : Prop := Scans skipStep .text text .text

/-- The two bytes that close a comment are not in the text. -/
def Unclosed (body : Bytes) : Prop := ¬ [asterisk, slash] <:+: body

/-- The asterisks at the end of a text. -/
def asterisksAtEnd (body : Bytes) : Nat := (body.reverse.takeWhile (· = asterisk)).length

/-- A slash that opens no comment. -/
def LoneSlash (text : Bytes) : Prop :=
  text = [slash] ∨ ∃ b rest, text = slash :: b :: rest ∧ b ≠ asterisk ∧ b ≠ slash

/-- Behind the comment the skipper does what it does at the start of `rest`. -/
def Resumes (body rest : Bytes) : Prop :=
  ∃ last, skip (slash :: asterisk :: (body ++ asterisk :: slash :: rest)) =
    skipInsignificant { openStream rest with last := last }

/-- The run leaves or throws the error of a malformed input. -/
def ReportsMalformed (text : Bytes) : Prop :=
  (∃ p c, skip text = .ok p c ∧ c.reg.errNo = .malformedInput) ∨
    ∃ msg c, skip text = .error (.parse .malformedInput msg) c

/-- The run leaves an error and no byte, or throws an error that is caught. -/
def EndsSafely (text : Bytes) : Prop :=
  (∃ c, skip text = .ok none c ∧ c.reg.errNo ≠ .ok) ∨ ∃ e c, skip text = .error e c ∧ e.IsParse

/-! ## asterisks -/

theorem asterisksAtEnd_nil : asterisksAtEnd [] = 0 := rfl

theorem asterisksAtEnd_concat_asterisk (body : Bytes) :
    asterisksAtEnd (body ++ [asterisk]) = asterisksAtEnd body + 1 := by
  simp [asterisksAtEnd]

theorem asterisksAtEnd_concat {b : UInt8} (h : b ≠ asterisk) (body : Bytes) :
    asterisksAtEnd (body ++ [b]) = 0 := by
  simp [asterisksAtEnd, h]

/-- A text with asterisks at its end ends with one. -/
theorem eq_concat_of_asterisksAtEnd {body : Bytes} (h : asterisksAtEnd body ≠ 0) :
    ∃ init, body = init ++ [asterisk] := by
  rcases List.eq_nil_or_concat body with rfl | ⟨init, b, rfl⟩
  · exact absurd asterisksAtEnd_nil h
  · by_cases hb : b = asterisk
    · exact ⟨init, by rw [hb, List.concat_eq_append]⟩
    · rw [List.concat_eq_append, asterisksAtEnd_concat hb] at h
      exact absurd rfl h

theorem Unclosed.of_concat {body : Bytes} {b : UInt8} (h : Unclosed (body ++ [b])) : Unclosed body :=
  fun hin => h (hin.trans (List.infix_append' [] body [b]))

/-- Inside a comment the asterisks are taken in pairs. -/
theorem scans_block {body : Bytes} (h : Unclosed body) :
    Scans skipStep .block body (if Even (asterisksAtEnd body) then .block else .star) := by
  induction body using List.reverseRecOn with
  | nil => exact .nil _
  | append_singleton body b ih =>
    refine (ih h.of_concat).append ?_
    by_cases hb : b = asterisk
    · have hnext : Even (asterisksAtEnd (body ++ [b])) ↔ ¬ Even (asterisksAtEnd body) := by
        rw [hb, asterisksAtEnd_concat_asterisk, Nat.even_add_one]
      by_cases heven : Even (asterisksAtEnd body)
      · rw [if_pos heven, if_neg (by rw [hnext]; exact not_not.mpr heven), hb]
        exact .cons rfl (.nil _)
      · rw [if_neg heven, if_pos (hnext.mpr heven), hb]
        exact .cons rfl (.nil _)
    · rw [asterisksAtEnd_concat hb, if_pos Even.zero]
      by_cases heven : Even (asterisksAtEnd body)
      · rw [if_pos heven]
        exact .cons (if_neg hb) (.nil _)
      · -- the byte after an asterisk is no slash
        rw [if_neg heven]
        have hsome : asterisksAtEnd body ≠ 0 := fun hzero => heven (hzero ▸ Even.zero)
        obtain ⟨init, hinit⟩ := eq_concat_of_asterisksAtEnd hsome
        have hslash : b ≠ slash := by
          rintro rfl
          refine h ⟨init, [], ?_⟩
          rw [hinit]
          simp
        exact .cons (if_neg hslash) (.nil _)

/-- A comment that is still open behind `body`. -/
theorem scans_open {pre body : Bytes} (hpre : Passed pre) (h : Unclosed body) :
    Scans skipStep .text (pre ++ slash :: asterisk :: body)
      (if Even (asterisksAtEnd body) then .block else .star) :=
  hpre.append (.cons rfl (.cons rfl (scans_block h)))

theorem scans_line {pre body : Bytes} (hpre : Passed pre) (h : newline ∉ body) :
    Scans skipStep .text (pre ++ slash :: slash :: body) .line := by
  refine hpre.append (.cons rfl (.cons rfl ?_))
  induction body with
  | nil => exact .nil _
  | cons b body ih =>
    refine .cons (if_neg ?_) (ih fun hb => h (List.mem_cons_of_mem b hb))
    rintro rfl
    exact h List.mem_cons_self

/-- A closed comment with an even number of asterisks before its end is passed over. -/
theorem passed_block {body : Bytes} (h : Unclosed body) (heven : Even (asterisksAtEnd body)) :
    Passed (slash :: asterisk :: (body ++ [asterisk, slash])) := by
  have hblock := scans_block h
  rw [if_pos heven] at hblock
  exact .cons rfl (.cons rfl (hblock.append (.cons rfl (.cons rfl (.nil _)))))

/-! ## runs of the skipper -/

section Runs

variable {c : Cursor UnpackContext} {pre text rest : Bytes}

theorem skipInsignificant_passed (h : Passed pre) (hc : c.input = pre ++ rest) :
    ∃ last, skipInsignificant c = skipInsignificant { c with input := rest, last := last } := by
  obtain ⟨last, hscan⟩ := scan_of_scans Fault h hc
  refine ⟨last, ?_⟩
  rw [skipInsignificant, bind_apply, hscan, ← bind_apply]

/-- The end of the input inside a comment. Only behind an asterisk a byte is read
that is not there. -/
theorem skip_end {s : SkipMode} (h : Scans skipStep .text text s) :
    (s = .star → ∃ c', skip text = .error .nullDeref c') ∧
      (s = .block ∨ s = .line → ∃ c', skip text = .ok none c' ∧ c'.reg.errNo = .bufferUnderflow) := by
  obtain ⟨last, hscan⟩ := scan_of_scans Fault h (c := openStream text) (List.append_nil _).symm
  have hend := hscan.trans (scan_nil rfl)
  constructor
  · rintro rfl
    exact ⟨_, by rw [skip, skipInsignificant, bind_of_ok hend]; rfl⟩
  · rintro (rfl | rfl)
    · exact ⟨_, by rw [skip, skipInsignificant, bind_of_ok hend]; rfl, rfl⟩
    · exact ⟨_, by rw [skip, skipInsignificant, bind_of_ok hend]; rfl, rfl⟩

end Runs

/-! ## comments -/

/-- Behind a comment with an odd number of asterisks the skipper is still in it. -/
theorem resumes_iff {body : Bytes} (h : Unclosed body) :
    (∀ rest, Resumes body rest) ↔ Even (asterisksAtEnd body) := by
  constructor
  · intro hres
    by_contra hodd
    have hblock := scans_block h
    rw [if_neg hodd] at hblock
    -- one significant byte is taken for a part of the comment
    have hopen : Scans skipStep .text (slash :: asterisk :: (body ++ [asterisk, slash, 0x31])) .block :=
      .cons rfl (.cons rfl (hblock.append (.cons rfl (.cons rfl (.cons rfl (.nil _))))))
    obtain ⟨c', hskip, -⟩ := (skip_end hopen).2 (.inl rfl)
    obtain ⟨last, heq⟩ := hres [0x31]
    have hstop : skipInsignificant { openStream [0x31] with last := last } =
        .ok (some 0x31) { openStream [] with last := 0x31 } :=
      @skipInsignificant_starts { openStream [0x31] with last := last } [] [] 0x31
        (List.forall_mem_nil _) rfl rfl
    rw [hskip, hstop] at heq
    injection heq with hnone
    cases hnone
  · intro heven rest
    exact skipInsignificant_passed
      (c := openStream (slash :: asterisk :: (body ++ asterisk :: slash :: rest)))
      (passed_block h heven) (by simp [openStream])

/-- A lone slash ends the skipping with no byte and no such error. -/
theorem not_reportsMalformed {pre tail : Bytes} (hpre : Passed pre) (h : LoneSlash tail) :
    ¬ ReportsMalformed (pre ++ tail) := by
  have hslash : Scans skipStep .text (pre ++ [slash]) .slash := hpre.append (.cons rfl (.nil _))
  have hrun : ∃ c', skip (pre ++ tail) = .ok none c' ∧ c'.reg.errNo ≠ .malformedInput := by
    rcases h with rfl | ⟨b, rest, rfl, hb, hb'⟩
    · obtain ⟨last, hscan⟩ := scan_of_scans Fault hslash (c := openStream (pre ++ [slash]))
        (List.append_nil _).symm
      exact ⟨_, by rw [skip, skipInsignificant, bind_of_ok (hscan.trans (scan_nil rfl))]; rfl, by simp⟩
    · have hinput : (openStream (pre ++ slash :: b :: rest)).input = pre ++ [slash] ++ b :: rest := by
        simp [openStream]
      obtain ⟨last, hscan⟩ := scan_of_scans Fault hslash hinput
      have hstep : skipStep .slash b = .done none := (if_neg hb).trans (if_neg hb')
      exact ⟨_, by rw [skip, skipInsignificant, bind_of_ok (hscan.trans (scan_done rfl hstep))]; rfl,
        by simp [openStream, UnpackContext.init]⟩
  obtain ⟨c', hskip, herr⟩ := hrun
  rintro (⟨p, c, hok, hmal⟩ | ⟨msg, c, herror⟩)
  · rw [hskip] at hok
    injection hok with _ hc
    exact herr (hc ▸ hmal)
  · rw [hskip] at herror
    cases herror

theorem endsSafely_block_iff {pre body : Bytes} (hpre : Passed pre) (h : Unclosed body) :
    EndsSafely (pre ++ slash :: asterisk :: body) ↔ Even (asterisksAtEnd body) := by
  have hopen := scans_open hpre h
  by_cases heven : Even (asterisksAtEnd body)
  · rw [if_pos heven] at hopen
    obtain ⟨c', hskip, herr⟩ := (skip_end hopen).2 (.inl rfl)
    exact iff_of_true (.inl ⟨c', hskip, by rw [herr]; decide⟩) heven
  · rw [if_neg heven] at hopen
    obtain ⟨c', hskip⟩ := (skip_end hopen).1 rfl
    refine iff_of_false ?_ heven
    rintro (⟨c, hok, -⟩ | ⟨e, c, herror, he⟩)
    · rw [hskip] at hok
      cases hok
    · rw [hskip] at herror
      injection herror with herror
      rw [← herror] at he
      exact he

theorem endsSafely_line {pre body : Bytes} (hpre : Passed pre) (h : newline ∉ body) :
    EndsSafely (pre ++ slash :: slash :: body) := by
  obtain ⟨c', hskip, herr⟩ := (skip_end (scans_line hpre h)).2 (.inr rfl)
  exact .inl ⟨c', hskip, by rw [herr]; decide⟩

/-- A block comment is closed, and may break off, where the number of asterisks at the end of
its body is even; a lone slash is never reported; a line comment may always break off. -/
theorem comments_iff {body pre tail line : Bytes} (hbody : Unclosed body) (hpre : Passed pre)
    (htail : LoneSlash tail) (hline : newline ∉ line) :
    ((∀ rest, Resumes body rest) ↔ Even (asterisksAtEnd body)) ∧
      ¬ ReportsMalformed (pre ++ tail) ∧
      (EndsSafely (pre ++ slash :: asterisk :: body) ↔ Even (asterisksAtEnd body)) ∧
      EndsSafely (pre ++ slash :: slash :: line) :=
  ⟨resumes_iff hbody, not_reportsMalformed hpre htail, endsSafely_block_iff hpre hbody,
    endsSafely_line hpre hline⟩

/-- A comment of two asterisks, a slash and a one, and an empty line comment. -/
theorem comments_twoAsterisks :
    (∀ rest, Resumes [asterisk, asterisk] rest) ∧ ¬ ReportsMalformed [slash, 0x31] ∧
      EndsSafely [slash, asterisk, asterisk, asterisk] ∧ EndsSafely [slash, slash] := by
  have hbody : Unclosed [asterisk, asterisk] := by
    rintro ⟨init, rest, heq⟩
    have hmem : slash ∈ [asterisk, asterisk] := heq ▸ by simp
    exact absurd hmem (by decide)
  obtain ⟨hres, hlone, hblock, hline⟩ := @comments_iff _ [] [slash, 0x31] [] hbody (.nil _)
    (.inr ⟨0x31, [], rfl, by decide, by decide⟩) (by decide)
  exact ⟨hres.mpr (by decide), hlone, hblock.mpr (by decide), hline⟩

/-- A comment of one asterisk is not closed. -/
theorem not_comments : ¬ ((∀ body, Unclosed body → ∀ rest, Resumes body rest) ∧
    (∀ pre tail, Passed pre → LoneSlash tail → ReportsMalformed (pre ++ tail)) ∧
    (∀ pre body, Passed pre → Unclosed body → EndsSafely (pre ++ slash :: asterisk :: body)) ∧
    ∀ pre body, Passed pre → newline ∉ body → EndsSafely (pre ++ slash :: slash :: body)) := by
  intro h
  have hunclosed : Unclosed [asterisk] := by
    intro hin
    exact absurd hin.length_le (by decide)
  exact absurd ((resumes_iff hunclosed).mp (h.1 _ hunclosed)) (by decide)

end LibShv.CCpon
