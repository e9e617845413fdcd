import LibShv.ShvFileJournal

/-!
# LibShv.ShvFileJournal.LastEntry

`ShvFileJournal::findLastEntryDateTime` with the position it finds. The file is read from its
end in windows of `CHUNK_LEN` bytes and the start of what was read before, and in each of them
only the line behind the last separator is looked at. So the last line with a time is found when
it is the last one of some window, and not when it is the first line of the file, nor when another
line follows it in every window it is in.
-/

namespace LibShv.ShvFileJournal

open ShvJournalFileWriter

/-! ## the function -/

/-- The time in front of the first field separator. -/
def frontTime (l : Bytes) : Option Int64 :=
  if FIELD_SEPARATOR ∈ l then
    let (dt, len) := RpcDateTime.fromIsoString (l.takeWhile (· ≠ FIELD_SEPARATOR))
    if len > 0 then some dt.msecsSinceEpoch else none
  else none

/-- The time in front of the last line of a chunk, and where the line starts. -/
def chunkEntry (chunk : Bytes) : Option (Int64 × Nat) :=
  match lineStart chunk with
  | none => none
  | some line_start_pos =>
    (frontTime (chunk.drop line_start_pos)).map fun dt_msec => (dt_msec, line_start_pos)

/-- What is read at a position. -/
def window (text : Bytes) (fpos : Nat) : Bytes := (text.drop fpos).take (CHUNK_LEN + TS_LEN)

/-- A time after 1970 in front of the last line of the chunk at a position, and where the line
starts in the file. -/
def entryAt (text : Bytes) (fpos : Nat) : Option (Int64 × Nat) :=
  match chunkEntry (window text fpos) with
  | some (dt_msec, line_start_pos) =>
    if 0 < dt_msec then some (dt_msec, fpos + line_start_pos) else none
  | none => none

/-- The chunks of a file from its end, each with the start of the one behind it. -/
def findLastChunkEntry (text : Bytes) : Nat → Nat → Option (Int64 × Nat)
  | 0, _ => none
  | fuel + 1, fpos =>
    if fpos = 0 then none
    else
      (entryAt text (fpos - CHUNK_LEN)).or (findLastChunkEntry text fuel (fpos - CHUNK_LEN))

/-- `findLastEntryDateTime`: the time, and `date_time_fpos`. -/
def findLastEntry (text : Bytes) (journal_start_msec : Int64) : Int64 × Int :=
  if text = [] then (journal_start_msec, -1)
  else
    match findLastChunkEntry text (text.length / CHUNK_LEN + 1) text.length with
    | some (dt_msec, date_time_fpos) => (dt_msec, date_time_fpos)
    | none => (-1, -1)

theorem chunkDateTime_eq (chunk : Bytes) :
    chunkDateTime chunk = (chunkEntry chunk).map (·.1) := by
  rw [chunkDateTime, chunkEntry]
  cases lineStart chunk with
  | none => rfl
  | some line_start_pos =>
    simp only [Option.map_map, frontTime]
    split
    · split
      · rfl
      · rfl
    · rfl

/-- The time that is read in a chunk, if it is after 1970, or else the next one. -/
def timeOrNext (read next : Option Int64) : Option Int64 :=
  match read with
  | some dt_msec => if 0 < dt_msec then some dt_msec else next
  | none => next

-- the chunk is not to be looked into where the loop is unfolded
seal chunkDateTime in
theorem findLastChunk_succ (text : Bytes) (fuel fpos : Nat) :
    findLastChunk text (fuel + 1) fpos =
      if fpos = 0 then none
      else timeOrNext (chunkDateTime (window text (fpos - CHUNK_LEN)))
        (findLastChunk text fuel (fpos - CHUNK_LEN)) := rfl

theorem timeOrNext_eq (text : Bytes) (fpos : Nat) (next : Option Int64) :
    timeOrNext (chunkDateTime (window text fpos)) next =
      ((entryAt text fpos).map (·.1)).or next := by
  rw [chunkDateTime_eq, entryAt]
  cases chunkEntry (window text fpos) with
  | none => rfl
  | some entry =>
    simp only [Option.map_some, timeOrNext]
    split
    · rfl
    · rfl

theorem findLastChunk_eq (text : Bytes) (fuel fpos : Nat) :
    findLastChunk text fuel fpos = (findLastChunkEntry text fuel fpos).map (·.1) := by
  induction fuel generalizing fpos with
  | zero => rfl
  | succ fuel ih =>
    rw [findLastChunk_succ, findLastChunkEntry]
    by_cases hzero : fpos = 0
    · rw [if_pos hzero, if_pos hzero]
      rfl
    · rw [if_neg hzero, if_neg hzero, ih, timeOrNext_eq]
      cases entryAt text (fpos - CHUNK_LEN) with
      | none => rfl
      | some entry => rfl

/-- The time is the one that the journal works with. -/
theorem findLastEntryDateTime_eq (text : Bytes) (journal_start_msec : Int64) :
    findLastEntryDateTime text journal_start_msec = (findLastEntry text journal_start_msec).1 := by
  rw [findLastEntryDateTime, findLastEntry, findLastChunk_eq]
  split
  · rfl
  · cases findLastChunkEntry text (text.length / CHUNK_LEN + 1) text.length with
    | none => rfl
    | some entry => rfl

/-! ## the windows -/

/-- Where a window starts, by the number of windows behind it. -/
def windowStart (text : Bytes) (k : Nat) : Nat := text.length - CHUNK_LEN * (k + 1)

/-- The windows that are read, if nothing is found before. -/
def IsWindow (text : Bytes) (k : Nat) : Prop := CHUNK_LEN * k < text.length

/-- The loop takes the first window that has a time. -/
theorem findLastChunkEntry_eq_some_iff {text : Bytes} {fuel k : Nat} {r : Int64 × Nat}
    (hfuel : text.length < CHUNK_LEN * (k + fuel)) :
    findLastChunkEntry text fuel (text.length - CHUNK_LEN * k) = some r ↔
      ∃ n, k ≤ n ∧ IsWindow text n ∧ entryAt text (windowStart text n) = some r ∧
        ∀ m, k ≤ m → m < n → entryAt text (windowStart text m) = none := by
  induction fuel generalizing k with
  | zero =>
    rw [findLastChunkEntry]
    refine iff_of_false (by simp) ?_
    rintro ⟨n, hn, hwindow, -⟩
    have hmul := Nat.mul_le_mul_left CHUNK_LEN hn
    rw [IsWindow] at hwindow
    rw [Nat.add_zero] at hfuel
    omega
  | succ fuel ih =>
    rw [findLastChunkEntry]
    by_cases hend : text.length - CHUNK_LEN * k = 0
    · rw [if_pos hend]
      refine iff_of_false (by simp) ?_
      rintro ⟨n, hn, hwindow, -⟩
      have hmul := Nat.mul_le_mul_left CHUNK_LEN hn
      rw [IsWindow] at hwindow
      omega
    · have hwindow : IsWindow text k := by
        rw [IsWindow]
        omega
      have hstart : text.length - CHUNK_LEN * k - CHUNK_LEN = windowStart text k := by
        rw [windowStart, Nat.mul_succ, Nat.sub_sub]
      have hfuel' : text.length < CHUNK_LEN * (k + 1 + fuel) := by
        rw [Nat.add_right_comm, Nat.add_assoc]
        exact hfuel
      rw [if_neg hend, hstart]
      cases hread : entryAt text (windowStart text k) with
      | some r' =>
        rw [Option.some_or]
        constructor
        · rintro heq
          obtain rfl := Option.some.inj heq
          exact ⟨k, Nat.le_refl k, hwindow, hread, fun m hm hlt =>
            absurd hlt (Nat.not_lt.mpr hm)⟩
        · rintro ⟨n, hn, -, hr, hfirst⟩
          rcases Nat.eq_or_lt_of_le hn with rfl | hlt
          · exact hread.symm.trans hr
          · rw [hfirst k (Nat.le_refl k) hlt] at hread
            exact absurd hread.symm (Option.some_ne_none _)
      | none =>
        rw [Option.none_or, windowStart, ih hfuel']
        constructor
        · rintro ⟨n, hn, hwindow', hr, hfirst⟩
          refine ⟨n, Nat.le_of_succ_le hn, hwindow', hr, fun m hm hlt => ?_⟩
          rcases Nat.eq_or_lt_of_le hm with rfl | hm
          · exact hread
          · exact hfirst m hm hlt
        · rintro ⟨n, hn, hwindow', hr, hfirst⟩
          rcases Nat.eq_or_lt_of_le hn with rfl | hn
          · rw [hread] at hr
            exact absurd hr.symm (Option.some_ne_none _)
          · exact ⟨n, hn, hwindow', hr, fun m hm => hfirst m (Nat.le_of_succ_le hm)⟩

/-- A window that is read, nothing having been found in those nearer to the end. -/
def IsReached (text : Bytes) (n : Nat) : Prop :=
  IsWindow text n ∧ ∀ m < n, entryAt text (windowStart text m) = none

theorem findLastChunkEntry_iff (text : Bytes) (r : Int64 × Nat) :
    findLastChunkEntry text (text.length / CHUNK_LEN + 1) text.length = some r ↔
      ∃ n, IsReached text n ∧ entryAt text (windowStart text n) = some r := by
  have hfuel : text.length < CHUNK_LEN * (0 + (text.length / CHUNK_LEN + 1)) := by
    rw [Nat.zero_add]
    exact Nat.lt_mul_div_succ _ (by decide)
  have hsome := findLastChunkEntry_eq_some_iff (r := r) hfuel
  rw [Nat.mul_zero, Nat.sub_zero] at hsome
  rw [hsome]
  constructor
  · rintro ⟨n, -, hwindow, hr, hfirst⟩
    exact ⟨n, ⟨hwindow, fun m hm => hfirst m (Nat.zero_le m) hm⟩, hr⟩
  · rintro ⟨n, ⟨hwindow, hfirst⟩, hr⟩
    exact ⟨n, Nat.zero_le n, hwindow, hr, fun m _ hm => hfirst m hm⟩

/-- If some window has a time there is a first one. -/
theorem exists_isReached {text : Bytes} {n : Nat} (hwindow : IsWindow text n)
    (h : entryAt text (windowStart text n) ≠ none) :
    ∃ n r, IsReached text n ∧ entryAt text (windowStart text n) = some r := by
  induction n using Nat.strong_induction_on with
  | _ n ih =>
    by_cases hfirst : ∀ m < n, entryAt text (windowStart text m) = none
    · obtain ⟨r, hr⟩ := Option.ne_none_iff_exists'.mp h
      exact ⟨n, r, ⟨hwindow, hfirst⟩, hr⟩
    · obtain ⟨m, hread⟩ := not_forall.mp hfirst
      obtain ⟨hm, hread⟩ := Classical.not_imp.mp hread
      refine ih m hm ?_ hread
      have hmul := Nat.mul_le_mul_left CHUNK_LEN (Nat.le_of_lt hm)
      rw [IsWindow] at hwindow ⊢
      omega

theorem findLastEntry_eq_some_iff {text : Bytes} (hne : text ≠ []) (journal_start_msec t : Int64)
    (p : Nat) :
    findLastEntry text journal_start_msec = (t, (p : Int)) ↔
      ∃ n, IsReached text n ∧ entryAt text (windowStart text n) = some (t, p) := by
  rw [findLastEntry, if_neg hne, ← findLastChunkEntry_iff]
  cases findLastChunkEntry text (text.length / CHUNK_LEN + 1) text.length with
  | none =>
    refine iff_of_false (fun h => ?_) (by simp)
    have hp := (Prod.mk.inj h).2
    omega
  | some r =>
    simp only [Prod.mk.injEq, Int.natCast_inj, Option.some.injEq]
    rw [Prod.ext_iff]

theorem findLastEntry_eq_none_iff {text : Bytes} (hne : text ≠ []) (journal_start_msec : Int64) :
    findLastEntry text journal_start_msec = (-1, -1) ↔
      ∀ n, IsWindow text n → entryAt text (windowStart text n) = none := by
  constructor
  · intro h n hwindow
    by_contra hread
    obtain ⟨n', r, hreached, hr⟩ := exists_isReached hwindow hread
    have hfound := (findLastEntry_eq_some_iff hne journal_start_msec r.1 r.2).mpr
      ⟨n', hreached, hr⟩
    rw [h] at hfound
    have hp := (Prod.mk.inj hfound).2
    omega
  · intro h
    rw [findLastEntry, if_neg hne]
    cases hr : findLastChunkEntry text (text.length / CHUNK_LEN + 1) text.length with
    | none => rfl
    | some r =>
      obtain ⟨n, hreached, hread⟩ := (findLastChunkEntry_iff text r).mp hr
      rw [h n hreached.1] at hread
      exact absurd hread.symm (Option.some_ne_none _)

/-! ## the last line of a chunk -/

theorem isBlank_recordSeparator : isBlank RECORD_SEPARATOR = true := by decide

/-- A chunk is what stands before its trailing blanks, and the blanks. -/
theorem exists_trimmed (chunk : Bytes) :
    ∃ z, chunk = (chunk.reverse.dropWhile isBlank).reverse ++ z ∧ ∀ b ∈ z, isBlank b = true := by
  refine ⟨(chunk.reverse.takeWhile isBlank).reverse, ?_, fun b hb => ?_⟩
  · rw [← List.reverse_append, List.takeWhile_append_dropWhile, List.reverse_reverse]
  · exact List.mem_takeWhile_imp (List.mem_reverse.mp hb)

theorem forall_ne_of_not_mem {sep : UInt8} {l : Bytes} (h : sep ∉ l) :
    ∀ b ∈ l, decide (b ≠ sep) = true := by
  intro b hb
  rw [decide_eq_true_eq]
  rintro rfl
  exact h hb

/-- Where the separator is last the line behind it is the last one. -/
theorem length_sub_takeWhile {a c : Bytes} (hc : RECORD_SEPARATOR ∉ c) :
    (a ++ RECORD_SEPARATOR :: c).length -
      ((a ++ RECORD_SEPARATOR :: c).reverse.takeWhile (· ≠ RECORD_SEPARATOR)).length =
        a.length + 1 := by
  have hall := forall_ne_of_not_mem fun hmem => hc (List.mem_reverse.mp hmem)
  rw [List.reverse_append, List.reverse_cons, List.append_assoc,
    List.takeWhile_append_of_pos hall, List.singleton_append, List.takeWhile_cons_of_neg (by simp),
    List.append_nil, List.length_reverse, List.length_append, List.length_cons]
  omega

/-- A list with the separator in it, cut at the last one. -/
theorem exists_last_separator {l : Bytes} (h : RECORD_SEPARATOR ∈ l) :
    ∃ a c, l = a ++ RECORD_SEPARATOR :: c ∧ RECORD_SEPARATOR ∉ c := by
  obtain ⟨c, a, hl, hc⟩ := List.eq_append_cons_of_mem (List.mem_reverse.mpr h)
  refine ⟨a.reverse, c.reverse, ?_, fun hmem => hc (List.mem_reverse.mp hmem)⟩
  rw [← List.reverse_reverse l, hl]
  simp

/-- Behind the last line that is looked at a chunk has blanks alone. -/
theorem exists_of_lineStart {chunk : Bytes} {line_start_pos : Nat}
    (h : lineStart chunk = some line_start_pos) :
    ∃ a c z, chunk = a ++ RECORD_SEPARATOR :: (c ++ z) ∧ RECORD_SEPARATOR ∉ c ∧
      (∀ b ∈ z, isBlank b = true) ∧ line_start_pos = a.length + 1 := by
  obtain ⟨body, z, hchunk, hz, hbody⟩ : ∃ body z, chunk = body ++ z ∧
      (∀ b ∈ z, isBlank b = true) ∧ (if (chunk.reverse.dropWhile isBlank).reverse = [] then
        chunk.take 1 else (chunk.reverse.dropWhile isBlank).reverse) = body := by
    obtain ⟨z, hchunk, hz⟩ := exists_trimmed chunk
    by_cases hnil : (chunk.reverse.dropWhile isBlank).reverse = []
    · rw [hnil, List.nil_append] at hchunk
      rw [if_pos hnil]
      refine ⟨_, chunk.drop 1, (List.take_append_drop 1 chunk).symm, fun b hb => ?_, rfl⟩
      exact hz b (hchunk ▸ List.mem_of_mem_drop hb)
    · exact ⟨_, z, hchunk, hz, if_neg hnil⟩
  rw [lineStart] at h
  simp only [hbody] at h
  split at h
  · next hmem =>
    obtain ⟨a, c, rfl, hc⟩ := exists_last_separator hmem
    rw [length_sub_takeWhile hc] at h
    refine ⟨a, c, z, ?_, hc, hz, (Option.some.inj h).symm⟩
    rw [hchunk, List.append_assoc, List.cons_append]
  · contradiction

/-- The line that is looked at is the last one that is not blank. -/
theorem lineStart_of_eq {a c z : Bytes} {b : UInt8} (hc : RECORD_SEPARATOR ∉ c ++ [b])
    (hb : isBlank b = false) (hz : ∀ b ∈ z, isBlank b = true) :
    lineStart (a ++ RECORD_SEPARATOR :: (c ++ [b] ++ z)) = some (a.length + 1) := by
  have htrimmed : ((a ++ RECORD_SEPARATOR :: (c ++ [b] ++ z)).reverse.dropWhile isBlank).reverse =
      a ++ RECORD_SEPARATOR :: (c ++ [b]) := by
    have hzr : ∀ x ∈ z.reverse, isBlank x = true := fun x hx => hz x (List.mem_reverse.mp hx)
    have hrev : (a ++ RECORD_SEPARATOR :: (c ++ [b] ++ z)).reverse =
        z.reverse ++ b :: (a ++ RECORD_SEPARATOR :: c).reverse := by simp
    rw [hrev, List.dropWhile_append_of_pos hzr, List.dropWhile_cons_of_neg (by simp [hb])]
    simp
  have hne : a ++ RECORD_SEPARATOR :: (c ++ [b]) ≠ [] := by simp
  have hmem : RECORD_SEPARATOR ∈ a ++ RECORD_SEPARATOR :: (c ++ [b]) := by simp
  rw [lineStart]
  simp only [htrimmed, if_neg hne, if_pos hmem]
  rw [length_sub_takeWhile hc]

/-- No time starts with a blank. -/
theorem frontTime_of_isBlank {b : UInt8} (hb : isBlank b = true) (l : Bytes) :
    frontTime (b :: l) = none := by
  have hlen : ∀ s : Bytes, (RpcDateTime.fromIsoString (b :: s)).2 = 0 := by
    intro s
    rw [isBlank, decide_eq_true_eq] at hb
    rcases hb with rfl | rfl | rfl
    · rfl
    · rfl
    · rfl
  rw [frontTime]
  split
  · by_cases hsep : b = FIELD_SEPARATOR
    · rw [List.takeWhile_cons_of_neg (by simpa using hsep)]
      rfl
    · rw [List.takeWhile_cons_of_pos (by simpa using hsep)]
      simp [hlen]
  · rfl

/-- A time stands in front of bytes that do not start with a blank. -/
theorem exists_of_frontTime {l : Bytes} {t : Int64} (h : frontTime l = some t) :
    ∃ b l', l = b :: l' ∧ isBlank b = false := by
  cases l with
  | nil =>
    rw [frontTime, if_neg List.not_mem_nil] at h
    exact absurd h.symm (Option.some_ne_none _)
  | cons b l =>
    refine ⟨b, l, rfl, ?_⟩
    by_contra hb
    rw [frontTime_of_isBlank (by simpa using hb)] at h
    exact absurd h.symm (Option.some_ne_none _)

theorem exists_last_not_blank {l : Bytes} (h : ∃ b ∈ l, isBlank b = false) :
    ∃ c b z, l = c ++ [b] ++ z ∧ isBlank b = false ∧ ∀ x ∈ z, isBlank x = true := by
  induction l with
  | nil =>
    obtain ⟨b, hmem, -⟩ := h
    exact absurd hmem List.not_mem_nil
  | cons x l ih =>
    by_cases hl : ∃ b ∈ l, isBlank b = false
    · obtain ⟨c, b, z, rfl, hb, hz⟩ := ih hl
      exact ⟨x :: c, b, z, rfl, hb, hz⟩
    · have hblank : ∀ y ∈ l, isBlank y = true := fun y hy => by
        by_contra hne
        exact hl ⟨y, hy, by simpa using hne⟩
      obtain ⟨b, hmem, hb⟩ := h
      rcases List.mem_cons.mp hmem with rfl | hmem
      · exact ⟨[], b, l, rfl, hb, hblank⟩
      · exact absurd ⟨b, hmem, hb⟩ hl

/-- Behind the first line there are blanks alone. -/
def BlankBehind (l : Bytes) : Prop :=
  ∀ b ∈ l.dropWhile (· ≠ RECORD_SEPARATOR), isBlank b = true

theorem chunkEntry_eq_some_iff {chunk : Bytes} {t : Int64} {p : Nat} :
    chunkEntry chunk = some (t, p) ↔
      ∃ a l, chunk = a ++ RECORD_SEPARATOR :: l ∧ p = a.length + 1 ∧ BlankBehind l ∧
        frontTime l = some t := by
  constructor
  · intro h
    rw [chunkEntry] at h
    cases hstart : lineStart chunk with
    | none =>
      rw [hstart] at h
      exact absurd h.symm (Option.some_ne_none _)
    | some line_start_pos =>
      rw [hstart] at h
      obtain ⟨a, c, z, rfl, hc, hz, rfl⟩ := exists_of_lineStart hstart
      have hdrop : (a ++ RECORD_SEPARATOR :: (c ++ z)).drop (a.length + 1) = c ++ z := by
        rw [← List.drop_drop, List.drop_left, List.drop_one, List.tail_cons]
      simp only [hdrop, Option.map_eq_some_iff, Prod.mk.injEq] at h
      obtain ⟨t', htime, rfl, rfl⟩ := h
      refine ⟨a, c ++ z, rfl, rfl, fun b hb => hz b ?_, htime⟩
      rw [List.dropWhile_append_of_pos (forall_ne_of_not_mem hc)] at hb
      exact (List.dropWhile_suffix _).mem hb
  · rintro ⟨a, l, rfl, rfl, hblank, htime⟩
    obtain ⟨b, l', rfl, hb⟩ := exists_of_frontTime htime
    have hne : b ≠ RECORD_SEPARATOR := by
      rintro rfl
      rw [isBlank_recordSeparator] at hb
      contradiction
    have hline : b ∈ (b :: l').takeWhile (· ≠ RECORD_SEPARATOR) := by
      rw [List.takeWhile_cons_of_pos (by simpa using hne)]
      exact List.mem_cons_self
    obtain ⟨c, b', z, hc, hb', hz⟩ := exists_last_not_blank ⟨b, hline, hb⟩
    have hsep : RECORD_SEPARATOR ∉ c ++ [b'] := by
      intro hmem
      have htake : RECORD_SEPARATOR ∈ (b :: l').takeWhile (· ≠ RECORD_SEPARATOR) := by
        rw [hc]
        exact List.mem_append_left _ hmem
      simpa using List.mem_takeWhile_imp htake
    have hl : b :: l' = c ++ [b'] ++ (z ++ (b :: l').dropWhile (· ≠ RECORD_SEPARATOR)) := by
      rw [← List.append_assoc, ← hc, List.takeWhile_append_dropWhile]
    have hstart := lineStart_of_eq (a := a) hsep hb' (z := z ++
      (b :: l').dropWhile (· ≠ RECORD_SEPARATOR)) fun x hx =>
        (List.mem_append.mp hx).elim (hz x) (hblank x)
    rw [← hl] at hstart
    rw [chunkEntry, hstart]
    simp only
    rw [← List.drop_drop, List.drop_left, List.drop_one, List.tail_cons, htime, Option.map_some]

/-! ## fields -/

/-- The time that a field is read as. -/
def fieldTime (f : Bytes) : Option Int64 :=
  let (dt, len) := RpcDateTime.fromIsoString f
  if len > 0 then some dt.msecsSinceEpoch else none

theorem takeWhile_field {f : Bytes} (hf : FIELD_SEPARATOR ∉ f) (r : Bytes) :
    (f ++ FIELD_SEPARATOR :: r).takeWhile (· ≠ FIELD_SEPARATOR) = f := by
  rw [List.takeWhile_append_of_pos (forall_ne_of_not_mem hf), List.takeWhile_cons_of_neg (by simp), List.append_nil]

theorem frontTime_eq_some_iff {l : Bytes} {t : Int64} :
    frontTime l = some t ↔
      ∃ f r, l = f ++ FIELD_SEPARATOR :: r ∧ FIELD_SEPARATOR ∉ f ∧ fieldTime f = some t := by
  constructor
  · intro h
    rw [frontTime] at h
    split at h
    · next hmem =>
      obtain ⟨f, r, rfl, hf⟩ := List.eq_append_cons_of_mem hmem
      rw [takeWhile_field hf] at h
      exact ⟨f, r, rfl, hf, h⟩
    · exact absurd h.symm (Option.some_ne_none _)
  · rintro ⟨f, r, rfl, hf, h⟩
    rw [frontTime, if_pos (by simp), takeWhile_field hf]
    exact h

/-- The first so many bytes have a time in front when the bytes have and its separator is one
of them. -/
theorem frontTime_take_iff {l : Bytes} {n : Nat} {t : Int64} :
    frontTime (l.take n) = some t ↔
      frontTime l = some t ∧ (l.takeWhile (· ≠ FIELD_SEPARATOR)).length < n := by
  constructor
  · intro h
    obtain ⟨f, r, hl, hf, ht⟩ := frontTime_eq_some_iff.mp h
    have hsplit : l = f ++ FIELD_SEPARATOR :: (r ++ l.drop n) := by
      rw [← List.cons_append, ← List.append_assoc, ← hl, List.take_append_drop]
    refine ⟨frontTime_eq_some_iff.mpr ⟨f, _, hsplit, hf, ht⟩, ?_⟩
    have hlen := congrArg List.length hl
    rw [List.length_take, List.length_append, List.length_cons] at hlen
    rw [hsplit, takeWhile_field hf]
    omega
  · rintro ⟨h, hlen⟩
    obtain ⟨f, r, rfl, hf, ht⟩ := frontTime_eq_some_iff.mp h
    rw [takeWhile_field hf] at hlen
    obtain ⟨k, rfl⟩ := Nat.exists_eq_add_of_lt hlen
    rw [Nat.add_assoc, List.take_length_add_append, List.take_succ_cons]
    exact frontTime_eq_some_iff.mpr ⟨f, _, rfl, hf, ht⟩

/-- The line in front has a time when the bytes have and it is not behind the line. -/
theorem frontTime_line_iff {l : Bytes} {t : Int64} :
    frontTime (l.takeWhile (· ≠ RECORD_SEPARATOR)) = some t ↔
      frontTime l = some t ∧ RECORD_SEPARATOR ∉ l.takeWhile (· ≠ FIELD_SEPARATOR) := by
  constructor
  · intro h
    obtain ⟨f, r, hl, hf, ht⟩ := frontTime_eq_some_iff.mp h
    have hsplit : l = f ++ FIELD_SEPARATOR ::
        (r ++ l.dropWhile (· ≠ RECORD_SEPARATOR)) := by
      rw [← List.cons_append, ← List.append_assoc, ← hl, List.takeWhile_append_dropWhile]
    refine ⟨frontTime_eq_some_iff.mpr ⟨f, _, hsplit, hf, ht⟩, fun hmem => ?_⟩
    rw [hsplit, takeWhile_field hf] at hmem
    have hline : RECORD_SEPARATOR ∈ l.takeWhile (· ≠ RECORD_SEPARATOR) := by
      rw [hl]
      exact List.mem_append_left _ hmem
    simpa using List.mem_takeWhile_imp hline
  · rintro ⟨h, hsep⟩
    obtain ⟨f, r, rfl, hf, ht⟩ := frontTime_eq_some_iff.mp h
    rw [takeWhile_field hf] at hsep
    rw [List.takeWhile_append_of_pos (forall_ne_of_not_mem hsep), List.takeWhile_cons_of_pos (by decide)]
    exact frontTime_eq_some_iff.mpr ⟨f, _, rfl, hf, ht⟩

/-! ## lines of a file -/

/-- A line starts at the position. -/
def IsLineStart (text : Bytes) (p : Nat) : Prop :=
  p = 0 ∨ 0 < p ∧ text[p - 1]? = some RECORD_SEPARATOR

/-- The line that starts at a position. -/
def lineAt (text : Bytes) (p : Nat) : Bytes := (text.drop p).takeWhile (· ≠ RECORD_SEPARATOR)

/-- A line that starts with a date-time followed by a field separator. -/
def IsDated (text : Bytes) (p : Nat) (t : Int64) : Prop :=
  IsLineStart text p ∧ frontTime (lineAt text p) = some t

/-- The last such line. -/
def IsLastDated (text : Bytes) (p : Nat) (t : Int64) : Prop :=
  IsDated text p t ∧ ∀ p' t', IsDated text p' t' → p' ≤ p

/-- What a window holds from a position on. -/
def restOfWindow (text : Bytes) (fpos p : Nat) : Bytes :=
  (text.drop p).take (fpos + (CHUNK_LEN + TS_LEN) - p)

theorem window_drop (text : Bytes) (fpos i : Nat) :
    (window text fpos).drop i = restOfWindow text fpos (fpos + i) := by
  rw [window, restOfWindow, List.drop_take, List.drop_drop, Nat.add_sub_add_left]

theorem window_getElem? {text : Bytes} {fpos i : Nat} (h : i < CHUNK_LEN + TS_LEN) :
    (window text fpos)[i]? = text[fpos + i]? := by
  rw [window, List.getElem?_take_of_lt h, List.getElem?_drop]

/-- A list is cut at a place by what stands there. -/
theorem cut_iff {l : Bytes} {p : Nat} {P : Bytes → Prop} :
    (∃ a r, l = a ++ RECORD_SEPARATOR :: r ∧ p = a.length + 1 ∧ P r) ↔
      0 < p ∧ l[p - 1]? = some RECORD_SEPARATOR ∧ P (l.drop p) := by
  constructor
  · rintro ⟨a, r, rfl, rfl, h⟩
    refine ⟨Nat.succ_pos _, ?_, ?_⟩
    · rw [Nat.add_sub_cancel, List.getElem?_append_right (Nat.le_refl _), Nat.sub_self]
      rfl
    · rw [← List.drop_drop, List.drop_left, List.drop_one, List.tail_cons]
      exact h
  · rintro ⟨hpos, hget, h⟩
    obtain ⟨hlt, hsep⟩ := List.getElem?_eq_some_iff.mp hget
    refine ⟨l.take (p - 1), l.drop p, ?_, ?_, h⟩
    · have hdrop := List.drop_eq_getElem_cons hlt
      rw [hsep, Nat.sub_add_cancel hpos] at hdrop
      rw [← hdrop, List.take_append_drop]
    · rw [List.length_take, Nat.min_eq_left (Nat.le_of_lt hlt), Nat.sub_add_cancel hpos]

/-- What a window reads: a time after 1970 in front of the last line that starts in it. -/
theorem entryAt_eq_some_iff {text : Bytes} {fpos p : Nat} {t : Int64} :
    entryAt text fpos = some (t, p) ↔
      0 < t ∧ fpos < p ∧ text[p - 1]? = some RECORD_SEPARATOR ∧
        BlankBehind (restOfWindow text fpos p) ∧ frontTime (restOfWindow text fpos p) = some t := by
  have hentry : entryAt text fpos = some (t, p) ↔
      0 < t ∧ ∃ i, p = fpos + i ∧ chunkEntry (window text fpos) = some (t, i) := by
    rw [entryAt]
    cases chunkEntry (window text fpos) with
    | none => simp
    | some entry =>
      simp only
      split
      · next hpos =>
        simp only [Option.some.injEq, Prod.mk.injEq]
        constructor
        · rintro ⟨rfl, rfl⟩
          exact ⟨hpos, entry.2, rfl, rfl⟩
        · rintro ⟨-, i, rfl, rfl⟩
          exact ⟨rfl, rfl⟩
      · next hpos =>
        refine iff_of_false (by simp) ?_
        rintro ⟨hpos', i, -, hi⟩
        obtain rfl := Option.some.inj hi
        exact hpos hpos'
  rw [hentry]
  refine and_congr_right fun _ => ?_
  simp only [chunkEntry_eq_some_iff, cut_iff, window_drop]
  constructor
  · rintro ⟨i, rfl, hi, hget, hblank, htime⟩
    have hlt : i - 1 < CHUNK_LEN + TS_LEN := by
      by_contra hge
      have hlen : (window text fpos).length ≤ CHUNK_LEN + TS_LEN := List.length_take_le _ _
      rw [List.getElem?_eq_none (by omega)] at hget
      exact absurd hget.symm (Option.some_ne_none _)
    rw [window_getElem? hlt, ← Nat.add_sub_assoc hi] at hget
    exact ⟨Nat.lt_add_of_pos_right hi, hget, hblank, htime⟩
  · rintro ⟨hlt, hget, hblank, htime⟩
    obtain ⟨i, rfl⟩ := Nat.exists_eq_add_of_le (Nat.le_of_lt hlt)
    have hi : 0 < i := Nat.pos_of_lt_add_right hlt
    have hin : i < CHUNK_LEN + TS_LEN := by
      have hlen := (frontTime_take_iff.mp htime).2
      omega
    rw [Nat.add_sub_assoc hi, ← window_getElem? (Nat.lt_of_le_of_lt (Nat.sub_le i 1) hin)] at hget
    exact ⟨i, rfl, hi, hget, hblank, htime⟩

/-! ## finding the last line -/

/-- The line is the last one of a window: it starts in it, blanks alone are behind it there, and
the separator behind its time is in it. -/
structure IsLastIn (text : Bytes) (fpos p : Nat) : Prop where
  starts : fpos < p
  blank : BlankBehind (restOfWindow text fpos p)
  separator : p + ((text.drop p).takeWhile (· ≠ FIELD_SEPARATOR)).length <
    fpos + (CHUNK_LEN + TS_LEN)

/-- The last line of a window starts with a time after 1970 but has no separator, and the one
behind the blank lines after it is taken for it. -/
def Misreads (text : Bytes) (fpos : Nat) : Prop :=
  ∃ p t, 0 < t ∧ IsLineStart text p ∧ IsLastIn text fpos p ∧ frontTime (text.drop p) = some t ∧
    RECORD_SEPARATOR ∈ (text.drop p).takeWhile (· ≠ FIELD_SEPARATOR)

/-- The result is the last line with a time, or there is none. -/
structure IsLastEntry (text : Bytes) (journal_start_msec : Int64) (r : Int64 × Int) : Prop where
  empty : text = [] → r.1 = journal_start_msec
  found : ∀ p t, IsLastDated text p t → r = (t, (p : Int))
  notFound : text ≠ [] → (∀ p t, ¬IsDated text p t) → r = (-1, -1)

theorem isDated_iff {text : Bytes} {p : Nat} {t : Int64} :
    IsDated text p t ↔ IsLineStart text p ∧ frontTime (text.drop p) = some t ∧
      RECORD_SEPARATOR ∉ (text.drop p).takeWhile (· ≠ FIELD_SEPARATOR) := by
  rw [IsDated, lineAt, frontTime_line_iff]

theorem ne_nil_of_isDated {text : Bytes} {p : Nat} {t : Int64} (h : IsDated text p t) :
    text ≠ [] := by
  rintro rfl
  obtain ⟨b, l, hl, -⟩ := exists_of_frontTime (isDated_iff.mp h).2.1
  rw [List.drop_nil] at hl
  exact absurd hl.symm (List.cons_ne_nil b l)

/-- A window reads its last line. -/
theorem entryAt_iff {text : Bytes} {fpos p : Nat} {t : Int64} :
    entryAt text fpos = some (t, p) ↔
      0 < t ∧ IsLineStart text p ∧ IsLastIn text fpos p ∧ frontTime (text.drop p) = some t := by
  rw [entryAt_eq_some_iff]
  constructor
  · rintro ⟨hpos, hlt, hget, hblank, htime⟩
    obtain ⟨hfront, hlen⟩ := frontTime_take_iff.mp htime
    exact ⟨hpos, Or.inr ⟨Nat.zero_lt_of_lt hlt, hget⟩, ⟨hlt, hblank, by omega⟩, hfront⟩
  · rintro ⟨hpos, hstart, hlast, hfront⟩
    have hlt := hlast.starts
    have hlen := hlast.separator
    have hget := (hstart.resolve_left (Nat.ne_of_gt (Nat.zero_lt_of_lt hlt))).2
    exact ⟨hpos, hlt, hget, hlast.blank, frontTime_take_iff.mpr ⟨hfront, by omega⟩⟩

/-- What a window reads is a line with a time, or it is misread. -/
theorem isDated_or_misreads {text : Bytes} {fpos p : Nat} {t : Int64}
    (h : entryAt text fpos = some (t, p)) : IsDated text p t ∨ Misreads text fpos := by
  obtain ⟨hpos, hstart, hlast, hfront⟩ := entryAt_iff.mp h
  by_cases hsep : RECORD_SEPARATOR ∈ (text.drop p).takeWhile (· ≠ FIELD_SEPARATOR)
  · exact Or.inr ⟨p, t, hpos, hstart, hlast, hfront, hsep⟩
  · exact Or.inl (isDated_iff.mpr ⟨hstart, hfront, hsep⟩)

theorem Misreads.entryAt_ne_none {text : Bytes} {fpos : Nat} (h : Misreads text fpos) :
    entryAt text fpos ≠ none := by
  obtain ⟨p, t, hpos, hstart, hlast, hfront, -⟩ := h
  rw [entryAt_iff.mpr ⟨hpos, hstart, hlast, hfront⟩]
  exact Option.some_ne_none _

theorem mem_dropWhile_separator {u v : Bytes} {b : UInt8} :
    b ∈ (u ++ RECORD_SEPARATOR :: b :: v).dropWhile (· ≠ RECORD_SEPARATOR) := by
  induction u with
  | nil =>
    rw [List.nil_append, List.dropWhile_cons_of_neg (by simp)]
    exact List.mem_cons_of_mem _ List.mem_cons_self
  | cons x u ih =>
    by_cases hx : x = RECORD_SEPARATOR
    · rw [List.cons_append, List.dropWhile_cons_of_neg (by simpa using hx)]
      simp
    · rw [List.cons_append, List.dropWhile_cons_of_pos (by simpa using hx)]
      exact ih

/-- A window nearer to the end has no line before one that is the last of a window. -/
theorem le_of_isLastIn {text : Bytes} {fpos fpos' p p' : Nat} {t : Int64}
    (hfpos : fpos ≤ fpos') (hdated : IsDated text p t) (hlast : IsLastIn text fpos p)
    (hlast' : IsLastIn text fpos' p') : p ≤ p' := by
  by_contra hlt
  rw [Nat.not_le] at hlt
  obtain ⟨hstart, hfront, -⟩ := isDated_iff.mp hdated
  obtain ⟨hp, hget⟩ := hstart.resolve_left (Nat.ne_of_gt (Nat.zero_lt_of_lt hlt))
  obtain ⟨b, l, hl, hb⟩ := exists_of_frontTime hfront
  -- the separator in front of the line at `p` ends the one at `p'`, and `b` stands behind it
  obtain ⟨u, r, hcut, hu, rfl⟩ : ∃ u r, text.drop p' = u ++ RECORD_SEPARATOR :: r ∧
      p - p' = u.length + 1 ∧ r = b :: l := by
    refine cut_iff.mpr ⟨Nat.sub_pos_of_lt hlt, ?_, ?_⟩
    · rw [List.getElem?_drop, ← hget]
      congr 1
      omega
    · rw [List.drop_drop, Nat.add_sub_cancel' (Nat.le_of_lt hlt)]
      exact hl
  have hroom := hlast.separator
  obtain ⟨k, hk⟩ := Nat.exists_eq_add_of_le
    (show u.length + 2 ≤ fpos' + (CHUNK_LEN + TS_LEN) - p' by omega)
  have hrest : restOfWindow text fpos' p' = u ++ RECORD_SEPARATOR :: b :: l.take k := by
    rw [restOfWindow, hcut, hk, Nat.add_assoc, List.take_length_add_append, Nat.add_comm 2 k,
      List.take_succ_cons, List.take_succ_cons]
  have hblank := hlast'.blank
  rw [hrest] at hblank
  rw [hblank b mem_dropWhile_separator] at hb
  contradiction

theorem windowStart_le (text : Bytes) {m n : Nat} (h : m ≤ n) :
    windowStart text n ≤ windowStart text m :=
  Nat.sub_le_sub_left (Nat.mul_le_mul_left CHUNK_LEN (Nat.succ_le_succ h)) _

/-- The first window that reads anything reads the last line with a time. -/
theorem eq_of_isReached {text : Bytes} {p n n' : Nat} {t : Int64} {r : Int64 × Nat}
    (hlast : IsLastDated text p t) (hread : entryAt text (windowStart text n) = some (t, p))
    (hmisreads : ∀ m < n, ¬Misreads text (windowStart text m)) (hreached : IsReached text n')
    (hr : entryAt text (windowStart text n') = some r) : r = (t, p) := by
  have hle : n' ≤ n := by
    by_contra hlt
    rw [hreached.2 n (Nat.not_le.mp hlt)] at hread
    exact absurd hread.symm (Option.some_ne_none _)
  rcases Nat.eq_or_lt_of_le hle with rfl | hlt
  · exact Option.some.inj (hr.symm.trans hread)
  · have hdated : IsDated text r.2 r.1 := (isDated_or_misreads hr).resolve_right (hmisreads n' hlt)
    obtain ⟨-, -, hlastIn, hfront⟩ := entryAt_iff.mp hread
    obtain ⟨-, -, hlastIn', hfront'⟩ := entryAt_iff.mp (show _ = some (r.1, r.2) from hr)
    have hp : r.2 = p := Nat.le_antisymm (hlast.2 r.2 r.1 hdated)
      (le_of_isLastIn (windowStart_le text hle) hlast.1 hlastIn hlastIn')
    rw [hp, hfront] at hfront'
    exact Prod.ext (Option.some.inj hfront').symm hp

/-- The last line with a time is found, or there is none, exactly when: the last such line has a
time after 1970 and is the last line of some window, and no window nearer to the end misreads its
last line; and where there is no such line no window misreads its last line. -/
theorem findLastEntry_isLastEntry_iff (text : Bytes) (journal_start_msec : Int64) :
    IsLastEntry text journal_start_msec (findLastEntry text journal_start_msec) ↔
      (∀ p t, IsLastDated text p t → 0 < t ∧ ∃ n, IsWindow text n ∧
        IsLastIn text (windowStart text n) p ∧ ∀ m < n, ¬Misreads text (windowStart text m)) ∧
      ((∀ p t, ¬IsDated text p t) →
        ∀ n, IsWindow text n → ¬Misreads text (windowStart text n)) := by
  constructor
  · intro h
    refine ⟨fun p t hlast => ?_, fun hnone n hwindow hmisreads => ?_⟩
    · have hne := ne_nil_of_isDated hlast.1
      obtain ⟨n, hreached, hread⟩ :=
        (findLastEntry_eq_some_iff hne journal_start_msec t p).mp (h.found p t hlast)
      obtain ⟨hpos, -, hlastIn, -⟩ := entryAt_iff.mp hread
      exact ⟨hpos, n, hreached.1, hlastIn, fun m hm hmisreads =>
        hmisreads.entryAt_ne_none (hreached.2 m hm)⟩
    · have hne : text ≠ [] := by
        rintro rfl
        exact Nat.not_lt_zero _ hwindow
      exact hmisreads.entryAt_ne_none
        ((findLastEntry_eq_none_iff hne journal_start_msec).mp (h.notFound hne hnone) n hwindow)
  · rintro ⟨hfound, hnone⟩
    refine ⟨fun hnil => ?_, fun p t hlast => ?_, fun hne hdated => ?_⟩
    · rw [findLastEntry, if_pos hnil]
    · obtain ⟨hpos, n, hwindow, hlastIn, hmisreads⟩ := hfound p t hlast
      obtain ⟨hstart, hfront, -⟩ := isDated_iff.mp hlast.1
      have hread : entryAt text (windowStart text n) = some (t, p) :=
        entryAt_iff.mpr ⟨hpos, hstart, hlastIn, hfront⟩
      obtain ⟨n', r, hreached, hr⟩ := exists_isReached hwindow (by
        rw [hread]
        exact Option.some_ne_none _)
      refine (findLastEntry_eq_some_iff (ne_nil_of_isDated hlast.1) journal_start_msec t p).mpr
        ⟨n', hreached, ?_⟩
      rw [hr, eq_of_isReached hlast hread hmisreads hreached hr]
    · refine (findLastEntry_eq_none_iff hne journal_start_msec).mpr fun n hwindow => ?_
      by_contra hread
      obtain ⟨r, hr⟩ := Option.ne_none_iff_exists'.mp hread
      exact (isDated_or_misreads (p := r.2) (t := r.1) hr).elim (hdated _ _)
        (hnone hdated n hwindow)

/-- A line at two seconds, without its separator. -/
def firstLine : Bytes := ascii "1970-01-01T00:00:02Z" ++ FIELD_SEPARATOR :: ascii "x"

example : findLastEntry (firstLine ++ RECORD_SEPARATOR :: firstLine) 0 = (2000, 23) := by decide

theorem isLastDated_firstLine : IsLastDated (firstLine ++ [RECORD_SEPARATOR]) 0 2000 := by
  refine ⟨⟨Or.inl rfl, by decide⟩, fun p t hdated => ?_⟩
  obtain ⟨hstart, hfront, -⟩ := isDated_iff.mp hdated
  rcases hstart with rfl | ⟨hp, hget⟩
  · exact Nat.le_refl 0
  · -- the only separator is the last byte, and nothing stands behind it
    exfalso
    obtain ⟨b, l, hl, -⟩ := exists_of_frontTime hfront
    have hlen := congrArg List.length hl
    rw [List.length_drop, List.length_append, List.length_singleton, List.length_cons] at hlen
    rw [List.getElem?_append_left (by omega)] at hget
    have hmem := List.mem_of_getElem? hget
    revert hmem
    decide

/-- The only line of a file is not found. -/
theorem findLastEntry_firstLine :
    ¬IsLastEntry (firstLine ++ [RECORD_SEPARATOR]) 0
      (findLastEntry (firstLine ++ [RECORD_SEPARATOR]) 0) := by
  intro h
  have hresult : findLastEntry (firstLine ++ [RECORD_SEPARATOR]) 0 = (-1, -1) := by decide
  have hfound := h.found 0 2000 isLastDated_firstLine
  rw [hresult] at hfound
  exact absurd hfound (by decide)

end LibShv.ShvFileJournal
