import LibShv.RpcFrame.Total
import LibShv.AbstractStreamReader.Strict

/-!
# LibShv.RpcFrame.Decoding

What a successful decode is worth. A container end is read as an Invalid value, and
where a value stands, nothing looks whether it is one. The value that comes out is
valid at every depth if there was a value in every such place.
-/

namespace LibShv.RpcFrame

open ByteReader AbstractStreamReader

/-- The strict reader does not stop at a container end or a separator in the place of a value. -/
def NothingMissing (rd : AbstractStreamReader) (data : Bytes) : Prop :=
  ∀ c, rd.strictReadFrom data ≠ .error valueExpected c

/-- A decode without an exception and without an error text gives a value that is valid at every
depth, and there was nothing to report. -/
def DecodesValid (rd : AbstractStreamReader) (data : Bytes) : Prop :=
  ∀ v, decodeDataErr rd data = .ok (v, "") → v.AllValid ∧ NothingMissing rd data

theorem decodeDataErr_eq_ok {rd : AbstractStreamReader} {data : Bytes} {v : RpcValue}
    (h : decodeDataErr rd data = .ok (v, "")) : ∃ c, rd.readFrom data = .ok v c := by
  rw [decodeDataErr] at h
  cases hdata : decodeData rd data with
  | ok val =>
    rw [hdata] at h
    obtain rfl : val = v := congrArg Prod.fst (Except.ok.inj h)
    rw [decodeData] at hdata
    cases hread : rd.readFrom data with
    | ok val' c =>
      rw [hread] at hdata
      exact ⟨c, by rw [Except.ok.inj hdata]⟩
    | error e c =>
      rw [hread] at hdata
      contradiction
  | error e =>
    rw [hdata] at h
    cases e with
    | parse errNo msg =>
      exact absurd (congrArg Prod.snd (Except.ok.inj h)) (what_parse_ne_empty errNo msg)
    | _ => contradiction

/-- Where no value is missing, what is read is valid at every depth. -/
theorem NothingMissing.allValid {rd : AbstractStreamReader} {data : Bytes} {v : RpcValue}
    {c : Cursor UnpackContext} (h : NothingMissing rd data) (hread : rd.readFrom data = .ok v c) :
    v.AllValid := by
  rcases strictReadFrom_of_readFrom hread with hstrict | ⟨c', herr⟩
  · exact (of_strictReadFrom hstrict).2
  · exact absurd herr (h c')

end LibShv.RpcFrame
