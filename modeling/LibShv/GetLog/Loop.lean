import LibShv.GetLog
import LibShv.Lib.Batch

/-!
# LibShv.GetLog.Loop

What the loop over the entries of a sorted journal does, when `since` is not
last: the entries up to `since` go into the snapshot, those in the range go into
the log as a batch under the limit, and the loop ends at the first entry it has
no room for or that is past `until`.
-/

namespace LibShv.GetLog

open Batch

variable (params : ShvGetLogParams)

/-! ## spans of a journal -/

/-- The entries that match, up to `since`. -/
def before (entries : List ShvJournalEntry) : List ShvJournalEntry :=
  entries.filter fun e => params.matchesEntry e &&
    decide (e.epochMsec ≤ params.sinceMsec) && decide (e.epochMsec < params.untilMsec)

/-- The entries that match, after `since` and before `until`. -/
def inRange (entries : List ShvJournalEntry) : List ShvJournalEntry :=
  entries.filter fun e => params.matchesEntry e &&
    decide (params.sinceMsec < e.epochMsec) && decide (e.epochMsec < params.untilMsec)

/-- The entries that match, from `until` on. -/
def pastUntil (entries : List ShvJournalEntry) : List ShvJournalEntry :=
  entries.filter fun e => params.matchesEntry e && decide (params.untilMsec ≤ e.epochMsec)

/-- The entries that go into the snapshot: those up to `since`, and with them the one
the loop ends at. -/
def snapshotSpan (entries : List ShvJournalEntry) : List ShvJournalEntry :=
  before params entries ++
    ((pastUntil params entries).take 1).filter fun e => e.epochMsec ≤ params.sinceMsec

/-- The snapshot that the loop gathers, whether or not it is asked for. -/
def gather (entries : List ShvJournalEntry) : Except String ShvSnapshot :=
  (snapshotSpan params entries).foldlM addToSnapshot []

/-- The timestamp, as entries are told apart by it. -/
def timeKey (e : ShvJournalEntry) : BitVec 57 := e.dateTime.msec

theorem timeChanged_eq (last : Option ShvJournalEntry) (e : ShvJournalEntry) :
    timeChanged last e = changed timeKey last e := by
  cases last <;> rfl

/-- Do so many records and the snapshot exceed the limit that was asked for? -/
def overRequested (snapshot : ShvSnapshot) (n : Nat) : Bool :=
  decide (params.recordCountLimit.toInt < (snapshot.length : Int) + n)

theorem overRequested_mono {snapshot : ShvSnapshot} (i j : Nat) (hij : i ≤ j)
    (h : overRequested params snapshot i = true) : overRequested params snapshot j = true := by
  rw [overRequested, decide_eq_true_eq] at h ⊢
  omega

/-- The variables of the loop where it ends. -/
def loopEnd (entries : List ShvJournalEntry) (snapshot : ShvSnapshot) : Loop :=
  let prev := (before params entries).getLast?
  let range := inRange params entries
  let full := overRequested params snapshot
  { snapshot := snapshot
    result_log := take timeKey full 0 prev range
    recordCountLimitHit := !range.isEmpty && full range.length
    last_entry := (take timeKey full 0 prev range).getLast?.or prev
    first_unmatching_entry := (rest timeKey full 0 prev range ++ pastUntil params entries).head?
    have_data_before_since_param := !(before params entries).isEmpty }

/-! ## the three phases -/

variable {params}

/-- Entries that do not match are skipped. -/
theorem collect_filter (st : Loop) (entries : List ShvJournalEntry) :
    collect params st entries = collect params st (entries.filter params.matchesEntry) := by
  induction entries generalizing st with
  | nil => rfl
  | cons e es ih =>
    rw [collect]
    by_cases hm : params.matchesEntry e = true
    · rw [if_pos hm, List.filter_cons_of_pos hm, collect, if_pos hm]
      simp only [ih]
    · rw [if_neg hm, List.filter_cons_of_neg hm, ih]

theorem collect_before {A B : List ShvJournalEntry}
    (hA : ∀ e ∈ A, params.matchesEntry e = true ∧
      (params.isSinceLast || decide (e.epochMsec ≤ params.sinceMsec)) = true ∧
      e.epochMsec < params.untilMsec) (st : Loop) :
    collect params st (A ++ B) =
      match A.foldlM addToSnapshot st.snapshot with
      | .error e => .error e
      | .ok snapshot => collect params { st with
          snapshot := snapshot
          last_entry := A.getLast?.or st.last_entry
          have_data_before_since_param := st.have_data_before_since_param || !A.isEmpty } B := by
  induction A generalizing st with
  | nil => simp [pure, Except.pure]
  | cons a A ih =>
    obtain ⟨hm, hsince, huntil⟩ := hA a List.mem_cons_self
    have hu : ¬params.untilMsec ≤ a.epochMsec := Int64.not_le.mpr huntil
    rw [List.cons_append, collect, if_pos hm, step]
    simp only [hsince, if_true, List.foldlM_cons]
    cases addToSnapshot st.snapshot a with
    | error e => rfl
    | ok snapshot =>
      simp only [bind, Except.bind, if_neg hu, pure, Except.pure,
        ih fun e he => hA e (List.mem_cons_of_mem _ he)]
      cases A.foldlM addToSnapshot snapshot with
      | error e => rfl
      | ok snapshot' =>
        simp only [List.getLast?_cons, List.isEmpty_cons, Bool.not_false, Bool.or_true,
          Bool.true_or]
        cases A.getLast? <;> rfl

theorem record_eq (st : Loop) (e : ShvJournalEntry) :
    record params st e =
      let exceeded := overRequested params st.snapshot (st.result_log.length + 1)
      if exceeded && changed timeKey st.last_entry e then
        ({ st with
          recordCountLimitHit := st.recordCountLimitHit || exceeded
          first_unmatching_entry := some e }, false)
      else
        ({ st with
          result_log := st.result_log ++ [e]
          recordCountLimitHit := st.recordCountLimitHit || exceeded
          last_entry := some e }, true) := by
  have hover : decide (params.recordCountLimit.toInt <
      (st.snapshot.length : Int) + st.result_log.length + 1) =
      overRequested params st.snapshot (st.result_log.length + 1) := by
    rw [overRequested]
    congr 2
  rw [record, hover]
  simp only [timeChanged_eq]

/-- The loop after the entries of the range. -/
def Loop.afterRange (params : ShvGetLogParams) (st : Loop) (L : List ShvJournalEntry) : Loop :=
  let full := overRequested params st.snapshot
  let taken := take timeKey full st.result_log.length st.last_entry L
  { st with
    result_log := st.result_log ++ taken
    last_entry := taken.getLast?.or st.last_entry
    recordCountLimitHit :=
      st.recordCountLimitHit || (!L.isEmpty && full (st.result_log.length + L.length)) }

/-- The entries of the range that the loop has no room for. -/
def Loop.restOfRange (params : ShvGetLogParams) (st : Loop) (L : List ShvJournalEntry) :
    List ShvJournalEntry :=
  rest timeKey (overRequested params st.snapshot) st.result_log.length st.last_entry L

/-- The flag is set by the last entry of the range, if it is set by any. -/
theorem hit_cons {snapshot : ShvSnapshot} {n : Nat} (a : ShvJournalEntry)
    (L : List ShvJournalEntry) :
    (overRequested params snapshot (n + 1) ||
        (!L.isEmpty && overRequested params snapshot (n + 1 + L.length))) =
      (!(a :: L).isEmpty && overRequested params snapshot (n + (a :: L).length)) := by
  have hmono : overRequested params snapshot (n + 1) = true →
      overRequested params snapshot (n + 1 + L.length) = true :=
    overRequested_mono params _ _ (Nat.le_add_right _ _)
  have hlen : n + (a :: L).length = n + 1 + L.length := by
    rw [List.length_cons]
    omega
  rw [hlen]
  cases L with
  | nil => simp
  | cons b L =>
    cases h : overRequested params snapshot (n + 1) with
    | true =>
      rw [hmono h]
      rfl
    | false => rw [Bool.false_or, List.isEmpty_cons, List.isEmpty_cons]

theorem getLast?_cons_or {α : Type} (a : α) (l : List α) (x : Option α) :
    (a :: l).getLast?.or x = l.getLast?.or (some a) := by
  rw [List.getLast?_cons]
  cases l.getLast? <;> rfl

/-- The loop ends at the first entry of the range. -/
theorem afterRange_stop {st : Loop} {a : ShvJournalEntry} (L : List ShvJournalEntry)
    (hstop : (overRequested params st.snapshot (st.result_log.length + 1) &&
      changed timeKey st.last_entry a) = true) :
    st.afterRange params (a :: L) = { st with
      recordCountLimitHit := st.recordCountLimitHit ||
        overRequested params st.snapshot (st.result_log.length + 1) } := by
  have hover := (Bool.and_eq_true_iff.mp hstop).1
  rw [Loop.afterRange, take, if_pos hstop]
  simp only [← hit_cons a L, hover, Bool.true_or, List.append_nil, List.getLast?_nil,
    Option.none_or]

/-- The loop keeps the first entry of the range and goes on. -/
theorem afterRange_go {st : Loop} {a : ShvJournalEntry} (L : List ShvJournalEntry)
    (hgo : ¬(overRequested params st.snapshot (st.result_log.length + 1) &&
      changed timeKey st.last_entry a) = true) :
    Loop.afterRange params { st with
      result_log := st.result_log ++ [a]
      recordCountLimitHit := st.recordCountLimitHit ||
        overRequested params st.snapshot (st.result_log.length + 1)
      last_entry := some a } L = st.afterRange params (a :: L) := by
  rw [Loop.afterRange, Loop.afterRange, take, if_neg hgo]
  simp only [List.length_append, List.length_singleton, List.append_assoc, List.singleton_append,
    Bool.or_assoc, hit_cons a L, getLast?_cons_or]

theorem collect_range (hlast : params.isSinceLast = false) {L B : List ShvJournalEntry}
    (hL : ∀ e ∈ L, params.matchesEntry e = true ∧ params.sinceMsec < e.epochMsec ∧
      e.epochMsec < params.untilMsec) (st : Loop) :
    collect params st (L ++ B) =
      match st.restOfRange params L with
      | u :: _ => .ok { st.afterRange params L with first_unmatching_entry := some u }
      | [] => collect params (st.afterRange params L) B := by
  induction L generalizing st with
  | nil => simp [Loop.restOfRange, Loop.afterRange, take, rest]
  | cons a L ih =>
    obtain ⟨hm, hsince, huntil⟩ := hL a List.mem_cons_self
    have hu : ¬params.untilMsec ≤ a.epochMsec := Int64.not_le.mpr huntil
    have hs : ¬a.epochMsec ≤ params.sinceMsec := Int64.not_le.mpr hsince
    have hstep : step params st a = .ok (record params st a) := by
      rw [step]
      simp only [hlast, Bool.false_or, decide_eq_false hs, Bool.false_eq_true, if_false, bind,
        Except.bind, if_neg hu, pure, Except.pure]
    rw [List.cons_append, collect, if_pos hm, hstep, record_eq, Loop.restOfRange, rest]
    simp only
    by_cases hstop : (overRequested params st.snapshot (st.result_log.length + 1) &&
        changed timeKey st.last_entry a) = true
    · rw [if_pos hstop, if_pos hstop, afterRange_stop L hstop]
    · rw [if_neg hstop, if_neg hstop, ← afterRange_go L hstop]
      simp only [ih fun e he => hL e (List.mem_cons_of_mem _ he), Loop.restOfRange,
        List.length_append, List.length_singleton]

theorem collect_pastUntil (hlast : params.isSinceLast = false) {C : List ShvJournalEntry}
    (hC : ∀ e ∈ C, params.matchesEntry e = true ∧ params.untilMsec ≤ e.epochMsec) (st : Loop) :
    collect params st C =
      match ((C.take 1).filter fun e => e.epochMsec ≤ params.sinceMsec).foldlM addToSnapshot
        st.snapshot with
      | .error e => .error e
      | .ok snapshot => .ok { st with
          snapshot := snapshot
          first_unmatching_entry := C.head?.or st.first_unmatching_entry } := by
  cases C with
  | nil => rfl
  | cons c C =>
    obtain ⟨hm, huntil⟩ := hC c List.mem_cons_self
    rw [collect, if_pos hm, step]
    simp only [hlast, Bool.false_or, List.take_succ_cons, List.take_zero, List.head?_cons,
      Option.some_or]
    by_cases hc : c.epochMsec ≤ params.sinceMsec
    · rw [List.filter_cons_of_pos (by simpa using hc), if_pos (by simpa using hc)]
      cases h : addToSnapshot st.snapshot c with
      | error e => simp [bind, Except.bind, h]
      | ok snapshot => simp [bind, Except.bind, h, huntil, pure, Except.pure]
    · rw [List.filter_cons_of_neg (by simpa using hc), if_neg (by simpa using hc)]
      simp [bind, Except.bind, huntil, pure, Except.pure]

/-! ## the whole loop -/

/-- The entries of a journal are sorted by their times. -/
def TimeSorted (entries : List ShvJournalEntry) : Prop :=
  entries.Pairwise fun a b => a.epochMsec ≤ b.epochMsec

instance (entries : List ShvJournalEntry) : Decidable (TimeSorted entries) :=
  inferInstanceAs (Decidable (entries.Pairwise _))

/-- The spans follow one another. -/
theorem spans_append {entries : List ShvJournalEntry} (hsorted : TimeSorted entries) :
    before params entries ++ (inRange params entries ++ pastUntil params entries) =
      entries.filter params.matchesEntry := by
  have hmatching := List.Pairwise.filter params.matchesEntry hsorted
  have huntil := filter_append_of_sorted hmatching (fun e => decide (e.epochMsec < params.untilMsec))
    fun a b hab hb => by
      simp only [decide_eq_true_eq] at hb ⊢
      exact Int64.lt_of_le_of_lt hab hb
  have hsince := filter_append_of_sorted
    (List.Pairwise.filter (fun e => decide (e.epochMsec < params.untilMsec)) hmatching)
    (fun e => decide (e.epochMsec ≤ params.sinceMsec)) fun a b hab hb => by
      simp only [decide_eq_true_eq] at hb ⊢
      exact Int64.le_trans hab hb
  have hbefore : before params entries = ((entries.filter params.matchesEntry).filter
      fun e => decide (e.epochMsec < params.untilMsec)).filter
      fun e => decide (e.epochMsec ≤ params.sinceMsec) := by
    rw [before, List.filter_filter, List.filter_filter]
    exact List.filter_congr fun e _ => by ac_rfl
  have hrange : inRange params entries = ((entries.filter params.matchesEntry).filter
      fun e => decide (e.epochMsec < params.untilMsec)).filter
      fun e => !decide (e.epochMsec ≤ params.sinceMsec) := by
    rw [inRange, List.filter_filter, List.filter_filter]
    refine List.filter_congr fun e _ => ?_
    have hnot : (!decide (e.epochMsec ≤ params.sinceMsec)) =
        decide (params.sinceMsec < e.epochMsec) := by
      rw [← decide_not]
      exact decide_eq_decide.mpr Int64.not_le
    rw [hnot]
    ac_rfl
  have hpast : pastUntil params entries = (entries.filter params.matchesEntry).filter
      fun e => !decide (e.epochMsec < params.untilMsec) := by
    rw [pastUntil, List.filter_filter]
    refine List.filter_congr fun e _ => ?_
    have hnot : (!decide (e.epochMsec < params.untilMsec)) =
        decide (params.untilMsec ≤ e.epochMsec) := by
      rw [← decide_not]
      exact decide_eq_decide.mpr Int64.not_lt
    rw [hnot, Bool.and_comm]
  rw [hbefore, hrange, hpast, ← List.append_assoc, hsince, huntil]

theorem mem_before {entries : List ShvJournalEntry} {e : ShvJournalEntry} :
    e ∈ before params entries ↔ e ∈ entries ∧ params.matchesEntry e = true ∧
      e.epochMsec ≤ params.sinceMsec ∧ e.epochMsec < params.untilMsec := by
  simp [before, and_assoc]

theorem mem_inRange {entries : List ShvJournalEntry} {e : ShvJournalEntry} :
    e ∈ inRange params entries ↔ e ∈ entries ∧ params.matchesEntry e = true ∧
      params.sinceMsec < e.epochMsec ∧ e.epochMsec < params.untilMsec := by
  simp [inRange, and_assoc]

theorem mem_pastUntil {entries : List ShvJournalEntry} {e : ShvJournalEntry} :
    e ∈ pastUntil params entries ↔ e ∈ entries ∧ params.matchesEntry e = true ∧
      params.untilMsec ≤ e.epochMsec := by
  simp [pastUntil]

/-- Only the entry the loop ends at can go into the snapshot late, and then there is no
entry in the range. -/
theorem lateSnapshot_eq_nil {entries : List ShvJournalEntry} (h : inRange params entries ≠ []) :
    ((pastUntil params entries).take 1).filter (fun e => e.epochMsec ≤ params.sinceMsec) = [] := by
  obtain ⟨e, he⟩ := List.exists_mem_of_ne_nil _ h
  obtain ⟨-, -, hsince, huntil⟩ := mem_inRange.mp he
  rw [List.filter_eq_nil_iff]
  intro c hc
  obtain ⟨-, -, hcuntil⟩ := mem_pastUntil.mp (List.mem_of_mem_take hc)
  have : params.sinceMsec < c.epochMsec :=
    Int64.lt_of_lt_of_le (Int64.lt_trans hsince huntil) hcuntil
  simpa using Int64.not_le.mpr this

/-- The loop with the snapshot of the entries up to `since`. -/
def afterBefore (params : ShvGetLogParams) (entries : List ShvJournalEntry)
    (snapshot : ShvSnapshot) : Loop :=
  { Loop.start with
    snapshot := snapshot
    last_entry := (before params entries).getLast?
    have_data_before_since_param := !(before params entries).isEmpty }

theorem loopEnd_eq (entries : List ShvJournalEntry) (snapshot : ShvSnapshot) :
    loopEnd params entries snapshot =
      { (afterBefore params entries snapshot).afterRange params (inRange params entries) with
        first_unmatching_entry := ((afterBefore params entries snapshot).restOfRange params
          (inRange params entries) ++ pastUntil params entries).head? } := by
  rw [loopEnd, Loop.afterRange, Loop.restOfRange, afterBefore]
  simp [Loop.start]

/-- Without entries in the range the limit is not looked at. -/
theorem loopEnd_of_inRange_eq_nil {entries : List ShvJournalEntry}
    (h : inRange params entries = []) (snapshot snapshot' : ShvSnapshot) :
    loopEnd params entries snapshot = { loopEnd params entries snapshot' with
      snapshot := snapshot } := by
  simp [loopEnd, h, take, rest]

/-- The loop gathers the snapshot and takes a batch of the range. -/
theorem collect_eq (hlast : params.isSinceLast = false) {entries : List ShvJournalEntry}
    (hsorted : TimeSorted entries) :
    collect params .start entries =
      match gather params entries with
      | .error e => .error e
      | .ok snapshot => .ok (loopEnd params entries snapshot) := by
  have hbefore : ∀ e ∈ before params entries, params.matchesEntry e = true ∧
      (params.isSinceLast || decide (e.epochMsec ≤ params.sinceMsec)) = true ∧
      e.epochMsec < params.untilMsec := by
    intro e he
    obtain ⟨-, hm, hsince, huntil⟩ := mem_before.mp he
    exact ⟨hm, by rw [decide_eq_true hsince, Bool.or_true], huntil⟩
  rw [collect_filter, ← spans_append hsorted, collect_before hbefore, gather, snapshotSpan, List.foldlM_append]
  simp only [Loop.start]
  cases (before params entries).foldlM addToSnapshot [] with
  | error e => rfl
  | ok snapshot =>
    have hstart : ({ Loop.start with
        snapshot := snapshot
        last_entry := (before params entries).getLast?.or none
        have_data_before_since_param := false || !(before params entries).isEmpty } : Loop) =
        afterBefore params entries snapshot := by
      rw [afterBefore, Option.or_none, Bool.false_or]
    simp only [bind, Except.bind]
    rw [Loop.start] at hstart
    rw [hstart, collect_range hlast fun e he => (mem_inRange.mp he).2]
    have hend : loopEnd params entries snapshot = _ := loopEnd_eq entries snapshot
    cases hrest : (afterBefore params entries snapshot).restOfRange params
        (inRange params entries) with
    | cons u us =>
      have hne : inRange params entries ≠ [] := by
        intro hnil
        rw [hnil] at hrest
        contradiction
      rw [hrest] at hend
      rw [lateSnapshot_eq_nil hne]
      exact congrArg Except.ok hend.symm
    | nil =>
      rw [hrest] at hend
      simp only
      rw [collect_pastUntil hlast fun e he => (mem_pastUntil.mp he).2]
      have hlate : ∀ snapshot', { (afterBefore params entries snapshot).afterRange params
          (inRange params entries) with
            snapshot := snapshot'
            first_unmatching_entry := (pastUntil params entries).head?.or
              ((afterBefore params entries snapshot).afterRange params
                (inRange params entries)).first_unmatching_entry } =
          { loopEnd params entries snapshot with snapshot := snapshot' } := by
        intro snapshot'
        have hnone : ((afterBefore params entries snapshot).afterRange params
            (inRange params entries)).first_unmatching_entry = none := rfl
        rw [hend, hnone, Option.or_none]
        rfl
      by_cases hne : inRange params entries = []
      · rw [hne] at hlate ⊢
        change (match List.foldlM addToSnapshot snapshot _ with | .error e => _ | .ok snapshot => _)
          = _
        cases List.foldlM addToSnapshot snapshot _ with
        | error e => rfl
        | ok snapshot' =>
          simp only
          rw [loopEnd_of_inRange_eq_nil hne snapshot' snapshot, ← hlate snapshot']
      · rw [lateSnapshot_eq_nil hne]
        exact congrArg Except.ok (hlate snapshot)

end LibShv.GetLog
