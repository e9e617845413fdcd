import LibShv.DChainPack.Written
import LibShv.DChainPack.Received

/-!
# LibShv.DChainPack.Agree

The two implementations of ChainPack against each other: what one writes, the other reads as the
same value.
-/

namespace LibShv.DChainPack

open ByteReader

/-- C++ reads these bytes as `v` and takes no more. -/
def CppReads (bytes : Bytes) (v : RpcValue) : Prop :=
  ∀ rest, ∃ c, ChainPackReader.readFrom (bytes ++ rest) = .ok v c ∧ c.input = rest

/-- D reads these bytes as a value that is `v` in C++, and takes no more. -/
def DReads (bytes : Bytes) (v : RpcValue) : Prop :=
  ∀ rest, ∃ d, D.read (bytes ++ rest) = .ok (d, rest) ∧ valueOf d = v

/-- Whatever is asked of the value read has the same answer for `v`. -/
theorem DReads.read_eq {α : Type} {bytes : Bytes} {v : RpcValue} (h : DReads bytes v)
    (f : RpcValue → α) :
    (D.read bytes).toOption.map (fun r => f (valueOf r.1)) = some (f v) := by
  obtain ⟨d, hd, hv⟩ := h []
  rw [List.append_nil] at hd
  rw [hd, ← hv]
  rfl

theorem cppReads_write {d : D.RpcValue} (h : DCommon d) : CppReads (D.write d) (valueOf d) := by
  intro rest
  have hlen : 3 * (D.write d).length ≤ AbstractStreamReader.fuelFor (D.write d ++ rest).length := by
    rw [AbstractStreamReader.fuelFor, List.length_append]
    omega
  obtain ⟨v, c, hrun, hinput, -, ha⟩ := ((encodes_dWrite d h).2 _ hlen).whole
    (openStream (D.write d ++ rest)) rest rfl (fun _ _ => trivial) ⟨rfl, trivial⟩
  exact ⟨c, by rw [← ha.value]; exact hrun, hinput⟩

theorem dReads_write {v : RpcValue} (hstd : v.Std) (h : CommonValue v) :
    DReads (ChainPackWriter.write v) v := by
  intro rest
  have hlen : (ChainPackWriter.write v).length ≤ (ChainPackWriter.write v ++ rest).length := by
    rw [List.length_append]
    omega
  obtain ⟨d, c, hrun, hinput, -, rfl, -⟩ := yields_write v hstd h _ hlen
    { input := ChainPackWriter.write v ++ rest, last := 0, atEnd := false, reg := 0 } rest rfl
    (fun _ _ => trivial) trivial
  refine ⟨ofValue v, ?_, valueOf_ofValue v hstd h⟩
  rw [D.read, hrun, ← hinput]

/-- What D writes for a common value is the same value to C++, in whatever order it emits the
keys; and what C++ writes is the same value to D. -/
theorem codecs_agree (d : D.RpcValue) (hd : DCommon d) (v : RpcValue) (hstd : v.Std)
    (hv : CommonValue v) :
    CppReads (D.write d) (valueOf d) ∧ DReads (ChainPackWriter.write v) v :=
  ⟨cppReads_write hd, dReads_write hstd hv⟩

/-- Integer keys and metadata out of order, as `byKey` may give them. -/
def outOfOrder : D.RpcValue :=
  .mk [(.ofString (ascii "b"), .mk [] .null), (.ofInt 1, .mk [] (.bool true))]
    (.imap [(7, .mk [] (.integer (-700))), (-2, .mk [] (.uinteger 64))])

/-- A date-time an hour from UTC in a list with metadata. -/
def stampedList : RpcValue :=
  .mk (.mk [(1, .ofVariant .null)] [(ascii "b", .ofVariant (.bool true))])
    (.list [.ofVariant (.dateTime ⟨4, 1517529600123⟩), .ofVariant (.string (ascii "x"))])

theorem codecs_agree_outOfOrder :
    CppReads (D.write outOfOrder) (valueOf outOfOrder) ∧
      DReads (ChainPackWriter.write stampedList) stampedList := by
  refine codecs_agree outOfOrder ?_ stampedList ?_ ?_
  · exact ⟨⟨by decide, ⟨trivial, trivial⟩, by decide, ⟨trivial, trivial⟩, trivial⟩,
      ⟨trivial, fun h => absurd h (by decide)⟩, ⟨trivial, trivial⟩, trivial⟩
  · have hempty : RpcMetaData.Std (.mk [] []) := ⟨.nil, .nil, nofun⟩
    exact ⟨⟨by decide, by decide, by decide⟩,
      ⟨⟨⟨hempty, ⟨trivial, trivial⟩, trivial, trivial⟩, trivial⟩,
        ⟨hempty, ⟨trivial, trivial⟩, trivial, trivial⟩, trivial⟩, trivial,
      ⟨hempty, ⟨trivial, trivial⟩, trivial, trivial⟩,
      ⟨hempty, ⟨trivial, trivial⟩, Nat.lt_trans (Nat.lt_succ_self 1) (by decide), trivial⟩, trivial⟩
  · have hempty : CommonMeta (.mk [] []) := fun _ h => absurd h List.not_mem_nil
    have hkeys : ∀ e ∈ stampedList.metaData.sValues, e.1 ≠ [] :=
      List.forall_mem_singleton.mpr (by decide)
    have hstamp : RpcDateTime.PackFits ⟨4, 1517529600123⟩ ∧ TicksFit ⟨4, 1517529600123⟩ := by
      decide
    exact ⟨hkeys,
      ⟨⟨⟨hempty, ⟨trivial, trivial⟩, trivial, trivial⟩, trivial⟩,
        ⟨hempty, ⟨trivial, trivial⟩, trivial, trivial⟩, trivial⟩, trivial,
      ⟨hempty, ⟨trivial, trivial⟩, hstamp, trivial⟩,
      ⟨hempty, ⟨trivial, trivial⟩, trivial, trivial⟩, trivial⟩

/-- Metadata under the empty string, which D takes for the integer key 0. -/
def emptyKey : RpcValue := .mk (.mk [] [([], .ofVariant (.bool true))]) .null

/-- The year 33658, which D cannot count in units of 100 ns. -/
def farFuture : RpcValue := .ofVariant (.dateTime ⟨0, 1000000000000000⟩)

/-- Both are of common types, and D reads them as other values. -/
theorem not_codecs_agree :
    (emptyKey.Std ∧ emptyKey.Each CommonType (fun _ => True) ∧
      ¬ DReads (ChainPackWriter.write emptyKey) emptyKey) ∧
    farFuture.Std ∧ farFuture.Each CommonType (fun _ => True) ∧
      ¬ DReads (ChainPackWriter.write farFuture) farFuture := by
  have hempty : RpcMetaData.Std (.mk [] []) := ⟨.nil, .nil, nofun⟩
  refine ⟨⟨?_, ?_, ?_⟩, ?_, ?_, ?_⟩
  · exact ⟨⟨by decide, by decide, by decide⟩,
      ⟨trivial, ⟨hempty, ⟨trivial, trivial⟩, trivial, trivial⟩, trivial⟩, trivial, trivial⟩
  · exact ⟨trivial, ⟨trivial, ⟨trivial, ⟨trivial, trivial⟩, trivial, trivial⟩, trivial⟩, trivial,
      trivial⟩
  · intro h
    have hkeys := h.read_eq fun v => v.metaData.sValues.length
    exact absurd hkeys (by decide +kernel)
  · exact ⟨hempty, ⟨trivial, trivial⟩, trivial, trivial⟩
  · have hfits : RpcDateTime.PackFits ⟨0, 1000000000000000⟩ := by decide
    exact ⟨trivial, ⟨trivial, trivial⟩, hfits, trivial⟩
  · intro h
    have htime := h.read_eq fun v => v.toInt64.toOption
    exact absurd htime (by decide +kernel)

end LibShv.DChainPack
