import ProxyForge.ClassFile.Class
import ProxyForge.Proofs.Exactness
/-!
# Class files that are cut off

A class file takes what it reads, so bytes that hold one hold no other at their front, and none
with more behind: cut off anywhere they run short, and what is put behind them is left over
(`ClassFile.cut_or_extended`). The constant pool is read under a bound on the number of its entries
that depends on the bytes left. Each entry takes one at least, so the bound is never met and does
not tell two inputs apart (`Pool.decodeFrom_congr`).
-/

namespace ProxyForge

open Outcome Decoder

namespace Constant

theorem exact_decodeText : Exact decodeText := by
  refine Exact.u16.bind fun n => (Exact.take n.toNat).bind fun bytes => ?_
  split
  · exact .pure _
  · exact .fail _

theorem exact_decodePair (make : UInt16 → UInt16 → Constant) : Exact (decodePair make) :=
  Exact.u16.bind fun a => Exact.u16.map (make a)

theorem exact_decodeIndex (make : UInt16 → Constant) : Exact (decodeIndex make) :=
  Exact.u16.map make

theorem exact_decode (index : UInt16) : Exact (decode index) := by
  refine Exact.u8.bind fun tag => ?_
  split
  · exact exact_decodeText.map _
  · exact Exact.i32.map _
  · exact Exact.u32.map _
  · exact Exact.u64.map _
  · exact Exact.u64.map _
  any_goals exact exact_decodeIndex _
  any_goals exact exact_decodePair _
  · exact Exact.u8.bind fun kind => Exact.u16.map _
  · exact .fail _

/-- An entry takes its tag at least. -/
theorem length_rest_lt_of_decode {index : UInt16} {c c' : Cursor} {k : Constant}
    (h : decode index c = .ok k c') : c'.rest.length < c.rest.length := by
  obtain ⟨bytes, left, hrest, rfl, hreads, -⟩ := exact_decode index c.offset c.rest k c' h
  have hne : bytes ≠ [] := by
    rintro rfl
    cases hreads []
  have hpos := List.length_pos_iff.2 hne
  rw [hrest, List.length_append]
  exact Nat.lt_add_of_pos_left hpos

end Constant

namespace Pool

/-- **The bound on the number of entries is not met** if it is more than the bytes left. -/
theorem decodeFrom_congr {count : UInt16} {fuel fuel' : Nat} {index : UInt16}
    {entries : Array (Option Constant)} {c : Cursor} (h : c.rest.length < fuel)
    (h' : c.rest.length < fuel') :
    decodeFrom count fuel index entries c = decodeFrom count fuel' index entries c := by
  -- a constant takes a byte at least, so the bytes are used up before the fuel is
  induction fuel generalizing fuel' index entries c with
  | zero => exact absurd h (Nat.not_lt_zero _)
  | succ fuel ih =>
    obtain ⟨fuel', rfl⟩ := Nat.exists_eq_add_one_of_ne_zero (Nat.ne_zero_of_lt h')
    simp only [decodeFrom]
    split
    · cases hk : Constant.decode index c with
      | error e c₁ => rw [bind_run_error hk, bind_run_error hk]
      | ok k c₁ =>
        have hlt := Constant.length_rest_lt_of_decode hk
        rw [bind_run_eq hk, bind_run_eq hk]
        exact ih (by omega) (by omega)
    · rfl

theorem exact_decodeFrom (count : UInt16) (fuel : Nat) (index : UInt16)
    (entries : Array (Option Constant)) : Exact (decodeFrom count fuel index entries) := by
  induction fuel generalizing index entries with
  | zero => exact .pure _
  | succ fuel ih =>
    exact .ite ((Constant.exact_decode index).bind fun k => ih _ _) (.pure _)

theorem exact_decode : Exact decode := by
  refine Exact.u16.bind fun count => ?_
  refine .of_bounded (fun n => exact_decodeFrom count n 1 #[none]) fun n c hn => ?_
  exact decodeFrom_congr (Nat.lt_succ_self _) hn

end Pool

theorem Attribute.exact_decode : Exact decode :=
  Exact.u16.bind fun _ => Exact.u32.bind fun n => (Exact.take n.toNat).map _

theorem Member.exact_decode : Exact decode :=
  Exact.u16.bind fun _ => Exact.u16.bind fun _ => Exact.u16.bind fun _ =>
    Attribute.exact_decode.counted.map _

namespace ClassFile

theorem exact_decode : Exact decode := by
  refine Exact.u32.bind fun found => .ite (.fail _) ?_
  refine Exact.u16.bind fun minor => Exact.u16.bind fun major => ?_
  refine Pool.exact_decode.bind fun pool => ?_
  refine Exact.u16.bind fun access => Exact.u16.bind fun thisClass => ?_
  refine Exact.u16.bind fun superClass => Exact.u16.counted.bind fun interfaces => ?_
  refine Member.exact_decode.counted.bind fun fields => ?_
  exact Member.exact_decode.counted.bind fun methods => Attribute.exact_decode.counted.map _

variable {bytes : Bytes} {file : ClassFile}

/-- A file that is accepted was read from all bytes, and names its class. -/
theorem decode_of_ofBytes (h : ofBytes bytes = .ok file) :
    decode ⟨0, bytes⟩ = .ok file ⟨bytes.length, []⟩ := by
  obtain ⟨file', hrun, hname⟩ := bind_eq_ok.1 h
  obtain ⟨name, -, hfile⟩ := bind_eq_ok.1 hname
  obtain rfl : file' = file := Except.ok.inj hfile
  unfold Decoder.run at hrun
  split at hrun
  · next x c hwhole =>
    obtain rfl : x = file' := Except.ok.inj hrun
    obtain ⟨x', c₁, hdecode, hrest⟩ := bind_run_ok.1 hwhole
    obtain ⟨n, c₂, hn, hdone⟩ := bind_run_ok.1 hrest
    obtain ⟨taken, left, hbytes, rfl, -, -⟩ := exact_decode 0 bytes x' c₁ hdecode
    cases hn
    split at hdone
    · next hnil =>
      obtain rfl := List.eq_nil_of_length_eq_zero hnil
      cases hdone
      rw [Cursor.start, hbytes, List.append_nil] at hdecode
      rw [hbytes, List.append_nil, hdecode, Nat.zero_add]
    · cases hdone
  · cases hrun

/-- An error of reading is the answer. -/
theorem ofBytes_eq_error {e : FormatError} {c : Cursor}
    (h : decode ⟨0, bytes⟩ = .error e c) : ofBytes bytes = .error e := by
  have hwhole : decode.whole .trailing (.start bytes) = .error e c := bind_run_error h _
  simp only [ofBytes, Decoder.run, hwhole]
  rfl

/-- Bytes that are left over are the answer. -/
theorem ofBytes_eq_trailing {left : Bytes} {offset : Nat} (hleft : left ≠ [])
    (h : decode ⟨0, bytes⟩ = .ok file ⟨offset, left⟩) :
    ofBytes bytes = .error (.trailing left.length) := by
  have hlength : left.length ≠ 0 := fun hnil => hleft (List.eq_nil_of_length_eq_zero hnil)
  have hwhole : decode.whole .trailing (.start bytes) =
      .error (.trailing left.length) ⟨offset, left⟩ := by
    have hremaining : remaining ⟨offset, left⟩ = .ok left.length ⟨offset, left⟩ := rfl
    refine (bind_run_eq h _).trans ((bind_run_eq hremaining _).trans ?_)
    rw [if_neg hlength]
    rfl
  simp only [ofBytes, Decoder.run, hwhole]
  rfl

/-- **Cut off or extended, a class file is none.** Bytes that are accepted, cut off anywhere, are
rejected because they end too early: at a place in what is there, and for want of no more than what
was cut off. With anything behind them they are rejected for all of that. -/
theorem cut_or_extended (h : ofBytes bytes = .ok file) :
    (∀ front, front <+: bytes → front ≠ bytes → ∃ offset needed,
      ofBytes front = .error (.truncated offset needed) ∧ offset ≤ front.length ∧ 1 ≤ needed ∧
        front.length + needed ≤ bytes.length) ∧
    ∀ extra, extra ≠ [] → ofBytes (bytes ++ extra) = .error (.trailing extra.length) := by
  have hdecode := decode_of_ofBytes h
  obtain ⟨taken, left, hbytes, hc, hreads, hshort⟩ := exact_decode 0 bytes file _ hdecode
  obtain rfl : left = [] := (congrArg Cursor.rest hc).symm
  obtain rfl : bytes = taken := hbytes.trans (List.append_nil taken)
  constructor
  · intro front hfront hne
    have hlt : front.length < bytes.length :=
      Nat.lt_of_le_of_ne hfront.length_le fun he => hne (hfront.eq_of_length he)
    obtain ⟨place, needed, c, hrun, hplace, hneeded, htotal⟩ := hshort front hfront hlt
    exact ⟨place, needed, ofBytes_eq_error hrun, by omega, hneeded, htotal⟩
  · intro extra hextra
    exact ofBytes_eq_trailing hextra (hreads extra)

/-- A class without a superclass, fields or methods. -/
def bare : Bytes :=
  [0xca, 0xfe, 0xba, 0xbe, 0, 0, 0, 52, 0, 3, 1, 0, 1, 65, 7, 0, 1, 0, 32, 0, 2, 0, 0, 0, 0, 0, 0,
    0, 0, 0, 0]

theorem bare_cut_or_extended :
    ∃ file, ofBytes bare = .ok file ∧
      (∀ front, front <+: bare → front ≠ bare → ∃ offset needed,
        ofBytes front = .error (.truncated offset needed) ∧ offset ≤ front.length ∧ 1 ≤ needed ∧
          front.length + needed ≤ bare.length) ∧
      ∀ extra, extra ≠ [] → ofBytes (bare ++ extra) = .error (.trailing extra.length) := by
  have hfile : ofBytes bare = .ok ⟨0, 52, ⟨#[none, some (.utf8 "A"), some (.classRef 1)]⟩, 32, 2,
      0, [], [], [], []⟩ := by
    decide
  exact ⟨_, hfile, cut_or_extended hfile⟩

end ClassFile

end ProxyForge
