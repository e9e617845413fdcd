import LibShv.Crc32.Polynomial
import LibShv.SerialFrameReader.Delivered

/-!
# LibShv.SerialFrameReader.Damaged

A frame damaged on the line by a burst of errors before its CRC is never delivered, unless
the damage leaves an escape sequence open at the end: the CRC then begins in the middle of it.
-/

namespace LibShv.SerialFrameReader

open ByteReader FrameReader SerialFrameWriter

/-! ## parts of what is unescaped -/

theorem of_unescape_append {recentByte last : UInt8} {bytes bytes' out : Bytes}
    (h : unescape recentByte (bytes ++ bytes') = some (out, last)) :
    ∃ x y last', unescape recentByte bytes = some (x, last') ∧
      unescape last' bytes' = some (y, last) ∧ out = x ++ y := by
  induction bytes generalizing recentByte out with
  | nil => exact ⟨[], out, recentByte, rfl, h, rfl⟩
  | cons b bytes ih =>
    obtain ⟨x, y, hx, hy, rfl⟩ := of_unescape_cons h
    obtain ⟨x', y', last', hx', hy', rfl⟩ := ih hy
    exact ⟨x ++ x', y', last', unescape_cons hx hx', hy', (List.append_assoc ..).symm⟩

/-- The last byte is the recent one of what follows. -/
theorem last_of_unescape {recentByte last : UInt8} {bytes out : Bytes}
    (h : unescape recentByte bytes = some (out, last)) :
    last = (recentByte :: bytes).getLast (List.cons_ne_nil _ _) := by
  induction bytes generalizing recentByte out with
  | nil => exact (Prod.mk.inj (Option.some.inj h)).2.symm
  | cons b bytes ih =>
    obtain ⟨x, y, -, hy, -⟩ := of_unescape_cons h
    rw [ih hy]
    rfl

/-- Of four bytes that are read in front of a CRC that was escaped nothing is left. -/
theorem eq_of_unescape_crc {last last' : UInt8} (hlast : last ≠ ESC) {crc crcBuffer rest : Bytes}
    {c : Crc32T} (htrailer : escape (crcBytes c) = crc ++ rest)
    (h : unescape last crc = some (crcBuffer, last')) (hfour : crcBuffer.length = 4) :
    crcOfBytes crcBuffer = c := by
  obtain ⟨last'', -, hall⟩ := unescape_escape hlast (crcBytes c)
  rw [htrailer] at hall
  obtain ⟨x, y, last₁, hx, -, hout⟩ := of_unescape_append hall
  obtain ⟨rfl, rfl⟩ := Prod.mk.inj (Option.some.inj (hx.symm.trans h))
  have hlen := congrArg List.length hout
  rw [length_crcBytes, List.length_append, hfour] at hlen
  have hnil : y = [] := List.eq_nil_of_length_eq_zero (by omega)
  rw [hnil, List.append_nil] at hout
  rw [← hout, crcOfBytes_crcBytes]

/-! ## where a frame begins and ends -/

theorem eq_of_append_cons {b : UInt8} {xs xs' ys ys' : Bytes} (h : xs ++ b :: ys = xs' ++ b :: ys')
    (hxs : b ∉ xs) (hxs' : b ∉ xs') : xs = xs' ∧ ys = ys' := by
  induction xs generalizing xs' with
  | nil =>
    cases xs' with
    | nil => exact ⟨rfl, (List.cons.inj h).2⟩
    | cons x' xs' => exact absurd ((List.cons.inj h).1 ▸ List.mem_cons_self) hxs'
  | cons x xs ih =>
    cases xs' with
    | nil => exact absurd ((List.cons.inj h).1 ▸ List.mem_cons_self) hxs
    | cons x' xs' =>
      obtain ⟨rfl, htail⟩ := List.cons.inj h
      obtain ⟨rfl, hys⟩ := ih htail (fun hb => hxs (List.mem_cons_of_mem _ hb))
        fun hb => hxs' (List.mem_cons_of_mem _ hb)
      exact ⟨rfl, hys⟩

theorem eq_of_append_cons_last {b : UInt8} {xs xs' ys ys' : Bytes}
    (h : xs ++ b :: ys = xs' ++ b :: ys') (hys : b ∉ ys) (hys' : b ∉ ys') : ys = ys' := by
  have hrev := congrArg List.reverse h
  simp only [List.reverse_append, List.reverse_cons, List.append_assoc, List.singleton_append] at hrev
  exact List.reverse_inj.mp (eq_of_append_cons hrev (by simpa using hys) (by simpa using hys')).1

/-! ## a damaged frame -/

/-- The bytes of a run one after the other. -/
theorem Fed.steps {withCrcCheck : Bool} {hist : Bytes} {s : SerialFrameReader}
    (h : Fed withCrcCheck hist s) (data : Bytes) :
    Fed withCrcCheck (hist ++ data) (data.foldl (fun s b => (s.step b).1) s) := by
  induction data generalizing hist s with
  | nil => exact (List.append_nil hist).symm ▸ h
  | cons b data ih =>
    rw [List.append_cons]
    exact ih (h.step rfl)

/-- The bytes between STX and ETX that were received for `bytes`: no delimiter among them, damaged
by a burst that the CRC finds, and no escape sequence left open. -/
structure Damaged (bytes body : Bytes) : Prop where
  plain : Plain body
  burst : Burst 32 (escape bytes) body
  closed : body.getLast? ≠ some ESC

theorem stx_not_mem {body rest : Bytes} (hbody : STX ∉ body) (hrest : STX ∉ rest) :
    STX ∉ body ++ ETX :: rest := by
  intro hmem
  rcases List.mem_append.mp hmem with hmem | hmem
  · exact hbody hmem
  · rcases List.mem_cons.mp hmem with heq | hmem
    · exact absurd heq (by decide)
    · exact hrest hmem

/-- The CRC that follows is not the one of the bytes received. -/
theorem Damaged.not_complete {bytes body : Bytes} (h : Damaged bytes body) {hist seen payload : Bytes}
    (hseen : seen <+: body ++ ETX :: trailer true bytes) :
    ¬Complete true (hist ++ STX :: seen) payload := by
  rintro ⟨before, body', crc, behind, last, hfed, huncut, huncut', hunescape, hcheck⟩
  rw [if_pos rfl] at hcheck
  obtain ⟨hetx, crcBuffer, last', hcrc, hfour, hright⟩ := hcheck
  obtain ⟨rest, hrest⟩ := hseen
  have hplain : Plain (escape (crcBytes (crcOf bytes).result)) := plain_escape _
  have hstx : STX ∉ seen := fun hmem =>
    stx_not_mem (fun hmem => (h.plain _ hmem).1 rfl) (fun hmem => (hplain _ hmem).1 rfl)
      (hrest ▸ List.mem_append_left rest hmem)
  have hstx' : STX ∉ body' ++ ETX :: (crc ++ behind) :=
    stx_not_mem (fun hmem => (huncut _ hmem).1 rfl) fun hmem => (huncut' _ hmem).1 rfl
  obtain rfl := eq_of_append_cons_last hfed hstx hstx'
  rw [List.append_assoc, List.cons_append] at hrest
  obtain ⟨rfl, htrailer⟩ := eq_of_append_cons hrest hetx fun hmem => (h.plain _ hmem).2.2 rfl
  have hlast : last ≠ ESC := by
    rw [content_eq hetx] at hunescape
    rw [last_of_unescape hunescape]
    intro hesc
    cases body' with
    | nil => exact absurd hesc (by decide)
    | cons b body' =>
      rw [List.getLast_cons (List.cons_ne_nil _ _)] at hesc
      exact h.closed (hesc ▸ List.getLast?_eq_some_getLast _)
  rw [List.append_assoc] at htrailer
  have hcrc' := eq_of_unescape_crc hlast htrailer.symm hcrc hfour
  exact result_ne_of_burst h.burst (hcrc'.symm.trans hright)

/-- Of a damaged frame nothing is delivered, whatever was fed before and happens in between. Only
where an escape sequence is left open a burst of this length can go unnoticed. -/
theorem damaged_not_delivered :
    (∀ {bytes body : Bytes}, Damaged bytes body → ∀ {hist seen : Bytes} {b : UInt8}
      {s : SerialFrameReader}, Fed true (hist ++ seen) s →
      seen ++ [b] <+: STX :: (body ++ ETX :: trailer true bytes) → (s.step b).1.frames = s.frames) ∧
    ∃ bytes body, Plain body ∧ Burst 32 (escape bytes) body ∧
      ((init true).addData (STX :: (body ++ ETX :: trailer true bytes))).1.frames.length = 1 := by
  refine ⟨fun {bytes body} h {hist seen b s} hfed hline => ?_, ?_⟩
  · cases seen with
    | nil =>
      obtain rfl := (List.cons_prefix_cons.mp hline).1
      rfl
    | cons b' seen =>
      obtain ⟨rfl, hseen⟩ := List.cons_prefix_cons.mp hline
      rcases (hfed.inv.step (b := b) rfl).2 with hsame | ⟨payload, head, hcomplete, -, -⟩
      · exact hsame
      · rw [List.append_assoc, List.cons_append] at hcomplete
        exact absurd hcomplete (h.not_complete hseen)
  · refine ⟨[1, 0, 0, 70, 124], [1, 151, 46, 218, 170], by decide, ?_, by decide +kernel⟩
    exact ⟨byteBits 1, [0, 0, 70, 124].flatMap byteBits, [151, 46, 218, 170].flatMap byteBits, [],
      by decide, by decide, by decide, by decide, by decide⟩

/-- A frame of which a bit was lost, up to its last byte. -/
theorem damaged_not_delivered_bit :
    (((STX :: ([1, 0x40, 0x41] ++ ETX :: (trailer true [1, 0x41, 0x41]).dropLast)).foldl
      (fun s b => (s.step b).1) (init true)).step
        ((trailer true [1, 0x41, 0x41]).getLast (by decide +kernel))).1.frames = [] := by
  have hdamaged : Damaged [1, 0x41, 0x41] [1, 0x40, 0x41] :=
    ⟨by decide, ⟨byteBits 1, [true], [false], (byteBits 0x40).tail ++ byteBits 0x41, by decide,
      by decide, by decide, by decide, by decide⟩, by decide⟩
  have hfed := (@Fed.init true).steps
    (STX :: ([1, 0x40, 0x41] ++ ETX :: (trailer true [1, 0x41, 0x41]).dropLast))
  exact (damaged_not_delivered.1 hdamaged hfed (by decide +kernel)).trans (by decide +kernel)

end LibShv.SerialFrameReader
