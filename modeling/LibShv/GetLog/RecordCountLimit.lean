import LibShv.GetLog.Result

/-!
# LibShv.GetLog.RecordCountLimit

The limit of the number of records. The header names the smaller of the limit
that was asked for and the default one, or none when it is to be ignored; the
loop looks at the limit that was asked for, and counts the entries of the snapshot
whether or not they are put into the result. So the log ends where it should when
the two limits agree wherever it may end.
-/

namespace LibShv.GetLog

open Batch

/-- The limit in effect, if there is one. -/
def effectiveLimit (params : ShvGetLogParams) (ignoreRecordCountLimit : Bool) : Option Int32 :=
  if ignoreRecordCountLimit then none
  else some (min params.recordCountLimit DEFAULT_GET_LOG_RECORD_COUNT_LIMIT)

/-- Do so many records and the snapshot in the result exceed the limit? -/
def overLimit (limit : Option Int32) (snapshotCount n : Nat) : Bool :=
  match limit with
  | some limit => decide (limit.toInt < (snapshotCount : Int) + n)
  | none => false

theorem overLimit_mono {limit : Option Int32} {snapshotCount : Nat} (i j : Nat) (hij : i ≤ j)
    (h : overLimit limit snapshotCount i = true) : overLimit limit snapshotCount j = true := by
  cases limit with
  | none => contradiction
  | some limit =>
    rw [overLimit, decide_eq_true_eq] at h ⊢
    omega

/-- The records after the snapshot are the matching entries in the range, cut before the first
one that exceeds the limit in effect and has not the timestamp of the entry before it; the
header tells whether the limit was exceeded. -/
structure HonoursRecordLimit (params : ShvGetLogParams) (entries : List ShvJournalEntry)
    (ignoreRecordCountLimit : Bool) (r : GetLogResult) : Prop where
  records : List.Forall₂ (IsRow params.withPathsDict r.header.pathDict) r.logEntries
    (take timeKey (overLimit (effectiveLimit params ignoreRecordCountLimit) r.snapshotEntries.length)
      0 (before params entries).getLast? (inRange params entries))
  hit : r.header.recordCountLimitHit = (!(inRange params entries).isEmpty &&
    overLimit (effectiveLimit params ignoreRecordCountLimit) r.snapshotEntries.length
      (inRange params entries).length)

/-- The numbers of records at which the limit counts: those at which the log may be cut, and
that of all the records. -/
def limitPlaces (params : ShvGetLogParams) (entries : List ShvJournalEntry) : List Nat :=
  stops timeKey 0 (before params entries).getLast? (inRange params entries) ++
    if (inRange params entries).isEmpty then [] else [(inRange params entries).length]

/-- The limit that is looked at and the one in effect are exceeded together. -/
def LimitsAgree (params : ShvGetLogParams) (entries : List ShvJournalEntry)
    (ignoreRecordCountLimit : Bool) (snapshot : ShvSnapshot) : Prop :=
  ∀ n ∈ limitPlaces params entries, overRequested params snapshot n =
    overLimit (effectiveLimit params ignoreRecordCountLimit)
      (snapshotResult params snapshot).length n

variable {params : ShvGetLogParams} {entries : List ShvJournalEntry} {snapshot : ShvSnapshot}
  {ignoreRecordCountLimit : Bool} {r : GetLogResult}

theorem limitsAgree_iff : LimitsAgree params entries ignoreRecordCountLimit snapshot ↔
    (loopEnd params entries snapshot).result_log =
        take timeKey (overLimit (effectiveLimit params ignoreRecordCountLimit)
          (snapshotResult params snapshot).length) 0 (before params entries).getLast?
          (inRange params entries) ∧
      (loopEnd params entries snapshot).recordCountLimitHit =
        (!(inRange params entries).isEmpty &&
          overLimit (effectiveLimit params ignoreRecordCountLimit)
            (snapshotResult params snapshot).length (inRange params entries).length) := by
  have htake : take timeKey (overRequested params snapshot) 0 (before params entries).getLast?
      (inRange params entries) = take timeKey (overLimit (effectiveLimit params
        ignoreRecordCountLimit) (snapshotResult params snapshot).length) 0
        (before params entries).getLast? (inRange params entries) ↔ _ :=
    take_eq_take_iff (overRequested_mono params) overLimit_mono
  rw [LimitsAgree, limitPlaces, List.forall_mem_append, ← htake]
  refine and_congr Iff.rfl ?_
  cases hempty : (inRange params entries).isEmpty with
  | true => simp [loopEnd, hempty]
  | false => simp [loopEnd, hempty]

theorem IsResult.honoursRecordLimit_iff (h : IsResult params entries snapshot r) :
    HonoursRecordLimit params entries ignoreRecordCountLimit r ↔
      LimitsAgree params entries ignoreRecordCountLimit snapshot := by
  have hcount : r.snapshotEntries.length = (snapshotResult params snapshot).length :=
    h.rows.length_eq
  rw [limitsAgree_iff]
  constructor
  · intro hhonours
    obtain ⟨hrecords, hhit⟩ := hhonours
    rw [hcount] at hrecords hhit
    rw [h.hit] at hhit
    refine ⟨?_, hhit⟩
    -- both are the beginning of the range, and of one length
    have hlen := h.log.length_eq.symm.trans hrecords.length_eq
    exact (List.prefix_of_prefix_length_le take_isPrefix take_isPrefix hlen.le).eq_of_length hlen
  · intro hagree
    obtain ⟨hlog, hhit⟩ := hagree
    refine ⟨?_, ?_⟩
    · rw [hcount, ← hlog]
      exact h.log
    · rw [hcount, h.hit]
      exact hhit

variable {now : RpcDateTime}

/-- The record limit is honoured exactly when the snapshot can be gathered, and the limit that
was asked for and the one in effect are exceeded together wherever the log may end. -/
theorem getLog_honoursRecordLimit_iff (hlast : params.isSinceLast = false)
    (hsorted : TimeSorted entries) (hlen : entries.length < 2 ^ 31)
    (hfar : ∀ e, (inRange params entries).getLast? = some e → FarFrom now e) :
    (∃ r, getLog entries params now ignoreRecordCountLimit = .ok r ∧
        HonoursRecordLimit params entries ignoreRecordCountLimit r) ↔
      ∃ snapshot, gather params entries = .ok snapshot ∧
        LimitsAgree params entries ignoreRecordCountLimit snapshot := by
  cases hgather : gather params entries with
  | error e =>
    have hget : getLog entries params now ignoreRecordCountLimit = .error e :=
      getLog_of_gather_error hlast hsorted hgather ignoreRecordCountLimit
    simp [hget]
  | ok snapshot =>
    obtain ⟨r, hget, hresult⟩ :=
      getLog_of_gather hlast hsorted hlen hgather hfar ignoreRecordCountLimit
    rw [hget]
    constructor
    · rintro ⟨r', hr', hhonours⟩
      obtain rfl := Except.ok.inj hr'
      exact ⟨snapshot, rfl, hresult.honoursRecordLimit_iff.mp hhonours⟩
    · rintro ⟨snapshot', hsnapshot', hagree⟩
      obtain rfl := Except.ok.inj hsnapshot'
      exact ⟨r, rfl, hresult.honoursRecordLimit_iff.mpr hagree⟩

/-! ### a limit of one -/

/-- A change of the value under a path. -/
def changeAt (msec : Int64) (path : Bytes) : ShvJournalEntry :=
  ⟨msec, path, .ofVariant (.int 1), ShvJournalEntry.NO_SHORT_TIME,
    ShvJournalEntry.DOMAIN_VAL_CHANGE, 2, []⟩

/-- One record after the first millisecond, without a snapshot unless it is asked for. -/
def oneRecord (withSnapshot : Bool) : ShvGetLogParams where
  since := .ofVariant (.dateTime (.fromMSecsSinceEpoch 1 0))
  until_ := .invalid
  pattern := fun _ _ => true
  recordCountLimit := 1
  withSnapshot := withSnapshot
  withPathsDict := false

theorem getLog_honoursRecordLimit_first :
    (∃ r, getLog [changeAt 2 (ascii "a"), changeAt 3 (ascii "a")] (oneRecord true)
        (.fromMSecsSinceEpoch 5000 0) false = .ok r ∧
      HonoursRecordLimit (oneRecord true) [changeAt 2 (ascii "a"), changeAt 3 (ascii "a")] false r) ∧
    (inRange (oneRecord true) [changeAt 2 (ascii "a"), changeAt 3 (ascii "a")]).length = 2 := by
  refine ⟨(getLog_honoursRecordLimit_iff rfl (by decide) (by decide) ?_).mpr ⟨[], rfl, ?_⟩, by decide⟩
  · intro e he
    obtain rfl := Option.some.inj he
    exact ⟨by decide, fun _ => by decide⟩
  · rw [LimitsAgree]
    decide

/-- An entry that is not in the result counts against the limit. -/
theorem getLog_not_honoursRecordLimit :
    ¬∃ r, getLog [changeAt 1 (ascii "a"), changeAt 2 (ascii "a")] (oneRecord false)
        (.fromMSecsSinceEpoch 5000 0) false = .ok r ∧
      HonoursRecordLimit (oneRecord false) [changeAt 1 (ascii "a"), changeAt 2 (ascii "a")]
        false r := by
  have hfar : ∀ e, (inRange (oneRecord false) [changeAt 1 (ascii "a"),
      changeAt 2 (ascii "a")]).getLast? = some e → FarFrom (.fromMSecsSinceEpoch 5000 0) e := by
    intro e he
    obtain rfl := Option.some.inj he
    exact ⟨by decide, fun _ => by decide⟩
  rintro ⟨r, hget, hhonours⟩
  have hgather : gather (oneRecord false) [changeAt 1 (ascii "a"), changeAt 2 (ascii "a")] =
      .ok [(ascii "a", changeAt 1 (ascii "a"))] := rfl
  obtain ⟨r', hget', hresult⟩ := getLog_of_gather rfl (by decide) (by decide) hgather hfar false
  rw [hget] at hget'
  obtain rfl := Except.ok.inj hget'
  have hagree := hresult.honoursRecordLimit_iff.mp hhonours
  rw [LimitsAgree] at hagree
  revert hagree
  decide

end LibShv.GetLog
