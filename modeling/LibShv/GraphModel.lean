import LibShv.Lib.SortedSearch
import LibShv.ShvTypeInfo.TypeDescr

/-!
# LibShv.GraphModel

The samples of a graph (`timeline/graphmodel.cpp`, `timeline/sample.cpp`): values are
appended to channels, and samples are looked up by their time.

`std::lower_bound` and `std::upper_bound` are the bounds of a list that is sorted by time.
-/

namespace LibShv

open UpperBound SortedSearch

/-- `timemsec_t`. -/
abbrev TimemsecT := Int64

/-- `Sample`, for values of any type. -/
structure Sample (V : Type) where
  time : TimemsecT
  value : V
  isRepeated : Bool

namespace Sample

/-- The number of the time, by which times are compared. -/
def msec {V : Type} (s : Sample V) : Int := s.time.toInt

end Sample

/-- `ChannelSamples`. -/
abbrev ChannelSamples (V : Type) := List (Sample V)

namespace ChannelSamples

variable {V : Type}

/-- `greaterOrEqualTimeIndex`; a channel without samples, whose last one does not exist, is not
asked. -/
def greaterOrEqualTimeIndex (samples : ChannelSamples V) (time : TimemsecT) : Option Nat :=
  let it := upperBound Sample.msec samples time.toInt
  if it = samples.length then
    if samples.getLast?.any (·.time = time) then some (samples.length - 1) else none
  else if it ≠ 0 ∧ samples[it - 1]?.any (·.time = time) then some (it - 1)
  else some it

/-- `greaterTimeIndex`. -/
def greaterTimeIndex (samples : ChannelSamples V) (time : TimemsecT) : Option Nat :=
  let it := upperBound Sample.msec samples time.toInt
  if it = samples.length then none else some it

/-- `lessOrEqualTimeIndex`. -/
def lessOrEqualTimeIndex (samples : ChannelSamples V) (time : TimemsecT) : Option Nat :=
  let it := lowerBound Sample.msec samples time.toInt
  if it = samples.length then
    if samples ≠ [] then some (samples.length - 1) else some it
  else if ¬ samples[it]?.any (·.time = time) then
    if it = 0 then none else some (it - 1)
  else some it

/-- The time of `sampleValue`. -/
def sampleTime (samples : ChannelSamples V) (ix : Nat) : TimemsecT :=
  ((samples[ix]?).map (·.time)).getD 0

/-- `lessTimeIndex`. -/
def lessTimeIndex (samples : ChannelSamples V) (time : TimemsecT) : Option Nat :=
  match lessOrEqualTimeIndex samples time with
  | none => none
  | some ix =>
    if sampleTime samples ix = time then
      if ix = 0 then none else some (ix - 1)
    else some ix

end ChannelSamples

/-- `GraphModel::XAxisType`. -/
inductive XAxisType where
  | Timeline | Value | Histogram
deriving DecidableEq

/-- `GraphModel`: the samples of the channels, and the sample type of the description that each
channel has. -/
structure GraphModel (V : Type) where
  xAxisType : XAxisType
  duplicateValuesEnabled : Bool
  samples : List (ChannelSamples V)
  sampleTypes : List ShvDescr.SampleType

namespace GraphModel

variable {V : Type}

/-- `channelCount`. -/
def channelCount (m : GraphModel V) : Nat := min m.sampleTypes.length m.samples.length

/-- The index of a channel, if it is valid. -/
def channelIndex? (m : GraphModel V) (channel : Int) : Option Nat :=
  if channel < 0 ∨ channel ≥ m.channelCount then none else some channel.toNat

/-- `m_samples[channel].push_back(sample)`. -/
def pushBack (m : GraphModel V) (channel : Nat) (sample : Sample V) : GraphModel V :=
  { m with samples := m.samples.modify channel (· ++ [sample]) }

/-- `appendValue`. -/
def appendValue [BEq V] (m : GraphModel V) (channel : Int) (sample : Sample V) : GraphModel V :=
  match m.channelIndex? channel with
  | none => m
  | some ch =>
    if m.xAxisType = .Timeline then
      if sample.time ≤ 0 then m
      else
        let samples := (m.samples[ch]?).getD []
        if samples.getLast?.any (fun last => last.time > sample.time) then m
        else if ¬ m.duplicateValuesEnabled ∧ m.sampleTypes[ch]? = some .Continuous ∧
            samples.getLast?.any (fun last => last.value == sample.value) then m
        else m.pushBack ch sample
    else m.pushBack ch sample

/-- What a search in a channel finds; nothing in a channel that is invalid or empty. -/
def search (m : GraphModel V) (channel : Int) (f : ChannelSamples V → Option Nat) : Option Nat :=
  match m.channelIndex? channel with
  | none => none
  | some ch =>
    let samples := (m.samples[ch]?).getD []
    if samples.length = 0 then none else f samples

/-- `lessTimeIndex`. -/
def lessTimeIndex (m : GraphModel V) (channel : Int) (time : TimemsecT) : Option Nat :=
  m.search channel (ChannelSamples.lessTimeIndex · time)

/-- `lessOrEqualTimeIndex`. -/
def lessOrEqualTimeIndex (m : GraphModel V) (channel : Int) (time : TimemsecT) : Option Nat :=
  m.search channel (ChannelSamples.lessOrEqualTimeIndex · time)

/-- `greaterTimeIndex`. -/
def greaterTimeIndex (m : GraphModel V) (channel : Int) (time : TimemsecT) : Option Nat :=
  m.search channel (ChannelSamples.greaterTimeIndex · time)

/-- `greaterOrEqualTimeIndex`. -/
def greaterOrEqualTimeIndex (m : GraphModel V) (channel : Int) (time : TimemsecT) : Option Nat :=
  m.search channel (ChannelSamples.greaterOrEqualTimeIndex · time)

/-- Calls of `appendValue` one after the other. -/
def appendValues [BEq V] (m : GraphModel V) (calls : List (Int × Sample V)) : GraphModel V :=
  calls.foldl (fun m c => m.appendValue c.1 c.2) m

/-! ## appending -/

/-- The samples of every channel are sorted by time. -/
def ByTime (m : GraphModel V) : Prop :=
  ∀ (ch : Nat) samples, m.samples[ch]? = some samples → Sorted Sample.msec samples

theorem ByTime.pushBack {m : GraphModel V} (h : m.ByTime) {ch : Nat} {sample : Sample V}
    (hlast : ∀ samples, m.samples[ch]? = some samples →
      samples.getLast?.any (fun last => last.time > sample.time) = false) :
    (m.pushBack ch sample).ByTime := by
  intro ch' samples' hsamples'
  rw [GraphModel.pushBack, List.getElem?_modify] at hsamples'
  obtain ⟨samples, hsamples, hif⟩ := Option.map_eq_some_iff.mp hsamples'
  by_cases hch : ch = ch'
  · subst hch
    rw [if_pos rfl] at hif
    subst hif
    refine (h ch samples hsamples).concat fun s hs => ?_
    have hmem := List.getLast?_eq_some_getLast (List.ne_nil_of_mem hs)
    have hle := hlast samples hsamples
    rw [hmem, Option.any_some, decide_eq_false_iff_not, gt_iff_lt, Int64.lt_iff_toInt_lt] at hle
    exact ((h ch samples hsamples).le_getLast hmem hs).trans (Int.not_lt.mp hle)
  · rw [if_neg hch] at hif
    subst hif
    exact h ch' samples hsamples

/-- A sample is put behind the others of its channel, or it is ignored. -/
theorem ByTime.appendValue [BEq V] {m : GraphModel V} (h : m.ByTime) (haxis : m.xAxisType = .Timeline)
    (channel : Int) (sample : Sample V) :
    (m.appendValue channel sample).ByTime ∧ (m.appendValue channel sample).xAxisType = .Timeline := by
  rw [GraphModel.appendValue]
  cases m.channelIndex? channel with
  | none => exact ⟨h, haxis⟩
  | some ch =>
    simp only [if_pos haxis]
    by_cases htime : sample.time ≤ 0
    · rw [if_pos htime]
      exact ⟨h, haxis⟩
    rw [if_neg htime]
    by_cases hlast : ((m.samples[ch]?).getD []).getLast?.any (fun last => last.time > sample.time) = true
    · rw [if_pos hlast]
      exact ⟨h, haxis⟩
    rw [if_neg hlast]
    split
    · exact ⟨h, haxis⟩
    · refine ⟨h.pushBack fun samples hsamples => ?_, haxis⟩
      rw [hsamples] at hlast
      exact Bool.eq_false_of_not_eq_true hlast

theorem ByTime.appendValues [BEq V] {m : GraphModel V} (h : m.ByTime) (haxis : m.xAxisType = .Timeline)
    (calls : List (Int × Sample V)) : (m.appendValues calls).ByTime := by
  induction calls generalizing m with
  | nil => exact h
  | cons c calls ih =>
    obtain ⟨hsorted, haxis'⟩ := h.appendValue haxis c.1 c.2
    exact ih hsorted haxis'

/-! ## searching -/

end GraphModel

namespace ChannelSamples

variable {V : Type} {samples : ChannelSamples V} {time : TimemsecT}

/-- No two samples have the time. -/
def AtMostOnce (samples : ChannelSamples V) (time : TimemsecT) : Prop :=
  ∀ (i j : Nat) s s', samples[i]? = some s → samples[j]? = some s' → s.time = time → s'.time = time →
    i = j

theorem any_time_iff {ix : Nat} (h : Sorted Sample.msec samples) (hix : ix < samples.length) :
    samples[ix]?.any (·.time = time) = true ↔
      lowerBound Sample.msec samples time.toInt ≤ ix ∧ ix < upperBound Sample.msec samples time.toInt := by
  have hs := List.getElem?_eq_getElem hix
  rw [← key_eq_iff h hs, hs, Option.any_some, decide_eq_true_eq]
  exact Int64.toInt_inj.symm

/-- The time stands once if its bounds are next to each other. -/
theorem atMostOnce_iff (h : Sorted Sample.msec samples) :
    samples.AtMostOnce time ↔
      upperBound Sample.msec samples time.toInt ≤ lowerBound Sample.msec samples time.toInt + 1 := by
  have hlen : upperBound Sample.msec samples time.toInt ≤ samples.length := upperBound_le_length
  have hkey : ∀ {i : Nat} {s : Sample V}, samples[i]? = some s → (s.time = time ↔
      lowerBound Sample.msec samples time.toInt ≤ i ∧ i < upperBound Sample.msec samples time.toInt) :=
    fun hs => Int64.toInt_inj.symm.trans (key_eq_iff h hs)
  constructor
  · intro honce
    by_contra hgap
    have h₁ := List.getElem?_eq_getElem
      (show lowerBound Sample.msec samples time.toInt < samples.length by omega)
    have h₂ := List.getElem?_eq_getElem
      (show lowerBound Sample.msec samples time.toInt + 1 < samples.length by omega)
    have heq := honce _ _ _ _ h₁ h₂ ((hkey h₁).mpr (by omega)) ((hkey h₂).mpr (by omega))
    omega
  · intro hgap i j s s' hs hs' ht ht'
    have hi := (hkey hs).mp ht
    have hj := (hkey hs').mp ht'
    omega

theorem lessOrEqualTimeIndex_eq (h : Sorted Sample.msec samples) (hne : 0 < samples.length) :
    lessOrEqualTimeIndex samples time =
      if lowerBound Sample.msec samples time.toInt < upperBound Sample.msec samples time.toInt then
        some (lowerBound Sample.msec samples time.toInt)
      else if 0 < lowerBound Sample.msec samples time.toInt then
        some (lowerBound Sample.msec samples time.toInt - 1)
      else none := by
  have hle : lowerBound Sample.msec samples time.toInt ≤ samples.length := lowerBound_le_length
  have hup : upperBound Sample.msec samples time.toInt ≤ samples.length := upperBound_le_length
  simp only [lessOrEqualTimeIndex]
  by_cases hend : lowerBound Sample.msec samples time.toInt = samples.length
  · rw [if_pos hend, if_pos (List.ne_nil_of_length_pos hne), if_neg (by omega), if_pos (by omega), hend]
  · have htime := @any_time_iff V samples time _ h (Nat.lt_of_le_of_ne hle hend)
    rw [if_neg hend]
    by_cases hrun : lowerBound Sample.msec samples time.toInt < upperBound Sample.msec samples time.toInt
    · rw [if_neg (not_not_intro (htime.mpr ⟨le_rfl, hrun⟩)), if_pos hrun]
    · rw [if_pos fun hmem => hrun (htime.mp hmem).2, if_neg hrun]
      split_ifs <;> first | rfl | omega

/-- The last index with a time under `time`, whatever the search for `≤` found. -/
theorem lessTimeIndex_eq (h : Sorted Sample.msec samples) (hne : 0 < samples.length) :
    lessTimeIndex samples time = if 0 < lowerBound Sample.msec samples time.toInt then
      some (lowerBound Sample.msec samples time.toInt - 1) else none := by
  have hle : lowerBound Sample.msec samples time.toInt ≤ samples.length := lowerBound_le_length
  have hup : upperBound Sample.msec samples time.toInt ≤ samples.length := upperBound_le_length
  have htime : ∀ ix < samples.length, (sampleTime samples ix = time ↔
      lowerBound Sample.msec samples time.toInt ≤ ix ∧
        ix < upperBound Sample.msec samples time.toInt) := fun ix hix => by
    rw [← any_time_iff h hix, sampleTime, List.getElem?_eq_getElem hix]
    simp
  rw [lessTimeIndex, lessOrEqualTimeIndex_eq h hne]
  by_cases hrun : lowerBound Sample.msec samples time.toInt < upperBound Sample.msec samples time.toInt
  · simp only [if_pos hrun]
    rw [if_pos ((htime _ (by omega)).mpr ⟨le_rfl, hrun⟩)]
    split_ifs <;> first | rfl | omega
  · simp only [if_neg hrun]
    by_cases hpos : 0 < lowerBound Sample.msec samples time.toInt
    · simp only [if_pos hpos]
      rw [if_neg fun heq => by have := (htime _ (by omega)).mp heq; omega]
    · simp only [if_neg hpos]

theorem greaterTimeIndex_eq : greaterTimeIndex samples time =
    if upperBound Sample.msec samples time.toInt < samples.length then
      some (upperBound Sample.msec samples time.toInt) else none := by
  have hup : upperBound Sample.msec samples time.toInt ≤ samples.length := upperBound_le_length
  simp only [greaterTimeIndex]
  split_ifs <;> first | rfl | omega

theorem greaterOrEqualTimeIndex_eq (h : Sorted Sample.msec samples) (hne : 0 < samples.length) :
    greaterOrEqualTimeIndex samples time =
      if lowerBound Sample.msec samples time.toInt < upperBound Sample.msec samples time.toInt then
        some (upperBound Sample.msec samples time.toInt - 1)
      else if upperBound Sample.msec samples time.toInt < samples.length then
        some (upperBound Sample.msec samples time.toInt)
      else none := by
  have hup : upperBound Sample.msec samples time.toInt ≤ samples.length := upperBound_le_length
  have hlast : samples.getLast?.any (·.time = time) = true ↔
      lowerBound Sample.msec samples time.toInt ≤ samples.length - 1 ∧
        samples.length - 1 < upperBound Sample.msec samples time.toInt := by
    rw [List.getLast?_eq_getElem?]
    exact any_time_iff h (by omega)
  have hprev : upperBound Sample.msec samples time.toInt ≠ 0 →
      (samples[upperBound Sample.msec samples time.toInt - 1]?.any (·.time = time) = true ↔
        lowerBound Sample.msec samples time.toInt < upperBound Sample.msec samples time.toInt) :=
    fun hpos => (any_time_iff h (by omega)).trans ⟨fun hand => by omega, fun hlt => by omega⟩
  simp only [greaterOrEqualTimeIndex]
  by_cases hend : upperBound Sample.msec samples time.toInt = samples.length
  · rw [if_pos hend]
    by_cases hrun : lowerBound Sample.msec samples time.toInt < upperBound Sample.msec samples time.toInt
    · rw [if_pos (hlast.mpr ⟨by omega, by omega⟩), if_pos hrun, hend]
    · rw [if_neg fun hmem => hrun (by have := hlast.mp hmem; omega), if_neg hrun, if_neg (by omega)]
  · rw [if_neg hend]
    by_cases hrun : lowerBound Sample.msec samples time.toInt < upperBound Sample.msec samples time.toInt
    · have hpos : upperBound Sample.msec samples time.toInt ≠ 0 := by omega
      rw [if_pos ⟨hpos, (hprev hpos).mpr hrun⟩, if_pos hrun]
    · rw [if_neg fun hand => hrun ((hprev hand.1).mp hand.2), if_neg hrun, if_pos (by omega)]

/-- The four searches find what they are asked for. -/
structure Found (samples : ChannelSamples V) (time : TimemsecT) (less lessOrEqual greater
    greaterOrEqual : Option Nat) : Prop where
  less : IsLast (fun s => s.time < time) samples less
  lessOrEqual : IsLast (fun s => s.time ≤ time) samples lessOrEqual
  greater : IsFirst (fun s => s.time > time) samples greater
  greaterOrEqual : IsFirst (fun s => s.time ≥ time) samples greaterOrEqual

/-- What is to be found, by the bounds of the time. -/
theorem found_iff (h : Sorted Sample.msec samples) (r₁ r₂ r₃ r₄ : Option Nat) :
    Found samples time r₁ r₂ r₃ r₄ ↔
      (r₁ = if 0 < lowerBound Sample.msec samples time.toInt then
        some (lowerBound Sample.msec samples time.toInt - 1) else none) ∧
      (r₂ = if 0 < upperBound Sample.msec samples time.toInt then
        some (upperBound Sample.msec samples time.toInt - 1) else none) ∧
      (r₃ = if upperBound Sample.msec samples time.toInt < samples.length then
        some (upperBound Sample.msec samples time.toInt) else none) ∧
      (r₄ = if lowerBound Sample.msec samples time.toInt < samples.length then
        some (lowerBound Sample.msec samples time.toInt) else none) := by
  have hlt : ∀ i s, samples[i]? = some s →
      (s.time < time ↔ i < lowerBound Sample.msec samples time.toInt) := fun i s hs =>
    Int64.lt_iff_toInt_lt.trans (lt_lowerBound_iff h hs).symm
  have hle : ∀ i s, samples[i]? = some s →
      (s.time ≤ time ↔ i < upperBound Sample.msec samples time.toInt) := fun i s hs =>
    Int64.le_iff_toInt_le.trans (lt_upperBound_iff h hs).symm
  have hgt : ∀ i s, samples[i]? = some s →
      (s.time > time ↔ upperBound Sample.msec samples time.toInt ≤ i) := fun i s hs => by
    rw [← Nat.not_lt, ← hle i s hs, gt_iff_lt, Int64.lt_iff_toInt_lt, Int64.le_iff_toInt_le, not_le]
  have hge : ∀ i s, samples[i]? = some s →
      (s.time ≥ time ↔ lowerBound Sample.msec samples time.toInt ≤ i) := fun i s hs => by
    rw [← Nat.not_lt, ← hlt i s hs, ge_iff_le, Int64.lt_iff_toInt_lt, Int64.le_iff_toInt_le, not_lt]
  rw [← isLast_iff_of_lt lowerBound_le_length hlt, ← isLast_iff_of_lt upperBound_le_length hle,
    ← isFirst_iff_of_le hgt, ← isFirst_iff_of_le hge]
  exact ⟨fun hf => ⟨hf.less, hf.lessOrEqual, hf.greater, hf.greaterOrEqual⟩,
    fun hand => ⟨hand.1, hand.2.1, hand.2.2.1, hand.2.2.2⟩⟩

/-- In a channel with samples the searches find that if and only if the time stands once. -/
theorem found_searches_iff (h : Sorted Sample.msec samples) (hne : 0 < samples.length) :
    Found samples time (lessTimeIndex samples time) (lessOrEqualTimeIndex samples time)
      (greaterTimeIndex samples time) (greaterOrEqualTimeIndex samples time) ↔
    samples.AtMostOnce time := by
  have hbounds : lowerBound Sample.msec samples time.toInt ≤ upperBound Sample.msec samples time.toInt :=
    lowerBound_le_upperBound h
  have hup : upperBound Sample.msec samples time.toInt ≤ samples.length := upperBound_le_length
  rw [found_iff h, atMostOnce_iff h, lessTimeIndex_eq h hne, lessOrEqualTimeIndex_eq h hne,
    greaterTimeIndex_eq, greaterOrEqualTimeIndex_eq h hne]
  constructor
  · rintro ⟨-, hleq, -, -⟩
    split_ifs at hleq
    · have heq := Option.some.inj hleq
      omega
    all_goals omega
  · intro honce
    refine ⟨rfl, ?_, rfl, ?_⟩
    · split_ifs <;> first | rfl | omega | exact congrArg some (by omega)
    · split_ifs <;> first | rfl | omega | exact congrArg some (by omega)

end ChannelSamples

namespace GraphModel

variable {V : Type}

theorem search_of_channel {m : GraphModel V} {ch : Nat} (hch : ch < m.channelCount)
    {samples : ChannelSamples V} (hsamples : m.samples[ch]? = some samples)
    (f : ChannelSamples V → Option Nat) :
    m.search ch f = if samples.length = 0 then none else f samples := by
  have hindex : m.channelIndex? ch = some ch := by
    rw [channelIndex?, if_neg (by omega)]
    rfl
  simp only [search, hindex, hsamples, Option.getD_some]

/-- Whatever is appended to a model without samples, the channels are sorted by time; and the
searches for a time in a channel find what they are asked for if and only if at most one of its
samples has the time. -/
theorem searches_iff [BEq V] {m : GraphModel V} (haxis : m.xAxisType = .Timeline)
    (hempty : ∀ samples ∈ m.samples, samples = []) (calls : List (Int × Sample V)) {ch : Nat}
    (hch : ch < (m.appendValues calls).channelCount) {samples : ChannelSamples V}
    (hsamples : (m.appendValues calls).samples[ch]? = some samples) (time : TimemsecT) :
    (m.appendValues calls).ByTime ∧
      ChannelSamples.Found samples time ((m.appendValues calls).lessTimeIndex ch time)
        ((m.appendValues calls).lessOrEqualTimeIndex ch time)
        ((m.appendValues calls).greaterTimeIndex ch time)
        ((m.appendValues calls).greaterOrEqualTimeIndex ch time) ↔
      samples.AtMostOnce time := by
  have hstart : m.ByTime := fun ch' samples' hsamples' => by
    rw [hempty samples' (List.mem_of_getElem? hsamples')]
    exact List.Pairwise.nil
  have hsorted := hstart.appendValues haxis calls
  rw [lessTimeIndex, lessOrEqualTimeIndex, greaterTimeIndex, greaterOrEqualTimeIndex]
  simp only [search_of_channel hch hsamples, and_iff_right hsorted]
  by_cases hlen : samples.length = 0
  · obtain rfl := List.eq_nil_of_length_eq_zero hlen
    refine iff_of_true ⟨?_, ?_, ?_, ?_⟩ fun i j s s' hs => by cases hs
    all_goals exact fun s hs => absurd hs List.not_mem_nil
  · simp only [if_neg hlen]
    exact ChannelSamples.found_searches_iff (hsorted ch samples hsamples) (Nat.pos_of_ne_zero hlen)

/-! ## a channel -/

/-- A graph with a channel of discrete values. -/
def oneChannel : GraphModel Bool := ⟨.Timeline, false, [[]], [.Discrete]⟩

/-- Two samples, and the time of the second one. -/
theorem searches_oneChannel :
    (oneChannel.appendValues [(0, ⟨5, true, false⟩), (0, ⟨7, true, false⟩)]).ByTime ∧
      ChannelSamples.Found [⟨5, true, false⟩, ⟨7, true, false⟩] 7 (some 0) (some 1) none (some 1) := by
  have hsorted : Sorted Sample.msec [(⟨5, true, false⟩ : Sample Bool), ⟨7, true, false⟩] := by
    change List.Pairwise _ _
    decide
  have hch : 0 < (oneChannel.appendValues [(0, ⟨5, true, false⟩), (0, ⟨7, true, false⟩)]).channelCount := by
    decide
  exact (searches_iff rfl (by decide) _ hch rfl 7).mpr
    ((ChannelSamples.atMostOnce_iff hsorted).mpr (by decide))

/-- Of two samples with the time 5 the first one is found as the last one that is not later. -/
theorem not_searches : ¬ ∀ (m : GraphModel Bool), m.xAxisType = .Timeline →
    (∀ samples ∈ m.samples, samples = []) → ∀ (calls : List (Int × Sample Bool)) (ch : Nat),
    ch < (m.appendValues calls).channelCount → ∀ samples,
    (m.appendValues calls).samples[ch]? = some samples → ∀ time,
      (m.appendValues calls).ByTime ∧
      ChannelSamples.Found samples time ((m.appendValues calls).lessTimeIndex ch time)
        ((m.appendValues calls).lessOrEqualTimeIndex ch time)
        ((m.appendValues calls).greaterTimeIndex ch time)
        ((m.appendValues calls).greaterOrEqualTimeIndex ch time) := by
  intro h
  have hfound := (h oneChannel rfl (by decide) [(0, ⟨5, true, false⟩), (0, ⟨5, false, false⟩)] 0 (by decide) _
    rfl 5).2.lessOrEqual
  exact hfound.2 1 (by decide) _ rfl (by decide)

end GraphModel

end LibShv
