import ProxyForge.ClassFile.Pool
import ProxyForge.Proofs.ClassFile.Text
import ProxyForge.Proofs.Reading
/-!
# Constant pools, written and read

A pool is read back from its bytes (`Pool.reads`) if it consists of constants one behind the other
(`Pool.Lists`) and the length of each text fits into the two bytes in front of it
(`Constant.Fits`).
-/

namespace ProxyForge

open Outcome Decoder

variable {offset : Nat}

/-! ## Numbers and bytes -/

namespace Bytes

theorem ofBe64_halves (n : UInt64) : ofBe64 (n >>> 32).toUInt32 n.toUInt32 = n := by
  apply UInt64.toNat.inj
  have hn := n.toNat_lt
  simp only [ofBe64, UInt64.toNat_or, UInt64.toNat_shiftLeft, UInt32.toNat_toUInt64,
    UInt64.toNat_toUInt32, UInt64.toNat_shiftRight, UInt64.toNat_ofNat]
  rw [show 32 % 2 ^ 64 % 64 = 32 from rfl, Nat.shiftRight_eq_div_pow, Nat.shiftLeft_eq]
  have hhigh : n.toNat / 2 ^ 32 % 2 ^ 32 = n.toNat / 2 ^ 32 := Nat.mod_eq_of_lt (by omega)
  rw [hhigh, Nat.mod_eq_of_lt (by omega), Nat.mul_comm, ← Nat.two_pow_add_eq_or_of_lt (by omega)]
  omega

theorem toNat_length32 {α : Type} {xs : List α} (h : xs.length < 2 ^ 32) :
    (length32 xs).toNat = xs.length := by
  rw [length32, UInt32.toNat_ofNat']
  exact Nat.mod_eq_of_lt h

end Bytes

namespace Decoder

namespace ReadsAt

theorem u64 (n : UInt64) : ReadsAt Decoder.u64 offset (Bytes.be64 n) n := by
  have hhalves : ReadsAt Decoder.u64 offset (Bytes.be64 n)
      (Bytes.ofBe64 (n >>> 32).toUInt32 n.toUInt32) :=
    (u32 _).bind ((u32 _).map _)
  rwa [Bytes.ofBe64_halves] at hhalves

theorem take (bytes : Bytes) : ReadsAt (Decoder.take bytes.length) offset bytes bytes := by
  intro rest
  unfold Decoder.take
  simp

/-- As many bytes as a number says. -/
theorem take_of_eq {n : Nat} {bytes : Bytes} (h : n = bytes.length) :
    ReadsAt (Decoder.take n) offset bytes bytes :=
  h ▸ take bytes

/-- Asking for the number of bytes left takes nothing; there are those of the value at least. -/
theorem from_remaining {β : Type} {f : Nat → Decoder β} {bytes : Bytes} {y : β}
    (h : ∀ n, bytes.length ≤ n → ReadsAt (f n) offset bytes y) :
    ReadsAt (Decoder.remaining >>= f) offset bytes y := by
  intro rest
  refine bind_run_ok.2 ⟨(bytes ++ rest).length, _, rfl, ?_⟩
  refine h _ ?_ rest
  rw [List.length_append]
  exact Nat.le_add_right _ _

end ReadsAt

end Decoder

/-! ## One constant -/

namespace Constant

/-- **The length of a text fits** into the two bytes in front of it. -/
def Fits : Constant → Prop
  | utf8 text => (ModifiedUtf8.encode text).length ≤ 65535
  | _ => True

instance (c : Constant) : Decidable c.Fits :=
  match c with
  | utf8 text => inferInstanceAs (Decidable ((ModifiedUtf8.encode text).length ≤ 65535))
  | integer _ | float _ | long _ | double _ | classRef _ | string _ | fieldRef _ _ | methodRef _ _
  | interfaceMethodRef _ _ | nameAndType _ _ | methodHandle _ _ | methodType _ | dynamic _ _
  | invokeDynamic _ _ | module _ | package _ => isTrue trivial

variable {c : Constant} {text : String} {index : UInt16}

theorem reads_text (h : (ModifiedUtf8.encode text).length ≤ 65535) :
    ReadsAt decodeText offset (Bytes.be16 (Bytes.length16 (ModifiedUtf8.encode text)) ++
      ModifiedUtf8.encode text) text := by
  refine (ReadsAt.u16 _).bind ?_
  rw [← List.append_nil (ModifiedUtf8.encode text)]
  refine (ReadsAt.take_of_eq ?_).bind ?_
  · rw [List.append_nil]
    exact Bytes.toNat_length16 h
  · rw [ModifiedUtf8.decode_encode]
    exact .pure text

theorem reads_pair (make : UInt16 → UInt16 → Constant) (a b : UInt16) :
    ReadsAt (decodePair make) offset (pairBytes a b) (make a b) :=
  (ReadsAt.u16 a).bind ((ReadsAt.u16 b).map (make a))

theorem reads_index (make : UInt16 → Constant) (i : UInt16) :
    ReadsAt (decodeIndex make) offset (Bytes.be16 i) (make i) :=
  (ReadsAt.u16 i).map make

/-- **A constant is read back from its bytes.** -/
theorem reads (h : c.Fits) : ReadsAt (decode index) offset c.encode c := by
  refine ReadsAt.from_u8 ?_
  cases c with
  | utf8 text => exact (reads_text h).map utf8
  | integer value =>
    exact (ReadsAt.i32 value).map integer
  | float bits => exact (ReadsAt.u32 bits).map float
  | long value =>
    exact (ReadsAt.u64 value.toUInt64).map fun bits => long bits.toInt64
  | double bits => exact (ReadsAt.u64 bits).map double
  | classRef i => exact reads_index classRef i
  | string i => exact reads_index string i
  | fieldRef a b => exact reads_pair fieldRef a b
  | methodRef a b => exact reads_pair methodRef a b
  | interfaceMethodRef a b => exact reads_pair interfaceMethodRef a b
  | nameAndType a b => exact reads_pair nameAndType a b
  | methodHandle kind i =>
    exact ReadsAt.from_u8 ((ReadsAt.u16 i).map (methodHandle kind))
  | methodType i => exact reads_index methodType i
  | dynamic a b => exact reads_pair dynamic a b
  | invokeDynamic a b => exact reads_pair invokeDynamic a b
  | module i => exact reads_index module i
  | package i => exact reads_index package i

end Constant

/-! ## All constants -/

namespace Pool

variable {p : Pool} {cs : List Constant} {entries : Array (Option Constant)}

/-- **A pool lists constants**: they stand one behind the other, from index one on. -/
def Lists (p : Pool) (cs : List Constant) : Prop :=
  p.entries = cs.foldl push #[none]

/-- The bytes of an entry. -/
def entryBytes : Option Constant → Bytes
  | some c => c.encode
  | none => []

theorem flatMap_push (entries : Array (Option Constant)) (c : Constant) :
    (push entries c).toList.flatMap entryBytes =
      entries.toList.flatMap entryBytes ++ c.encode := by
  unfold push
  split <;> simp [entryBytes]

theorem flatMap_foldl_push (entries : Array (Option Constant)) (cs : List Constant) :
    (cs.foldl push entries).toList.flatMap entryBytes =
      entries.toList.flatMap entryBytes ++ cs.flatMap Constant.encode := by
  induction cs generalizing entries with
  | nil => simp
  | cons c cs ih => simp [ih, flatMap_push]

/-- The bytes of a pool are those of its constants. -/
theorem encode_eq (h : p.Lists cs) :
    p.encode = Bytes.be16 (UInt16.ofNat p.entries.size) ++ cs.flatMap Constant.encode := by
  have hbytes := flatMap_foldl_push #[none] cs
  rw [← h] at hbytes
  exact congrArg (Bytes.be16 (UInt16.ofNat p.entries.size) ++ ·) hbytes

theorem size_le_foldl_push (entries : Array (Option Constant)) (cs : List Constant) :
    entries.size ≤ (cs.foldl push entries).size := by
  induction cs generalizing entries with
  | nil => exact Nat.le_refl _
  | cons c cs ih =>
    have hpush := size_push entries c
    exact Nat.le_trans (by omega) (ih (push entries c))

/-- What stands in a pool stays there. -/
theorem getElem?_foldl_push (cs : List Constant) {i : Nat} (hi : i < entries.size) :
    (cs.foldl push entries)[i]? = entries[i]? := by
  induction cs generalizing entries with
  | nil => rfl
  | cons c cs ih =>
    have hsize := size_push entries c
    rw [List.foldl_cons, ih (by omega), getElem?_push, if_neg (by omega), if_neg (by omega)]

/-- **Constants are read one behind the other**, until the count is reached. -/
theorem reads_from {count : UInt16} {fuel : Nat} (index : UInt16)
    (hfits : ∀ c ∈ cs, c.Fits) (hindex : index.toNat = entries.size)
    (hcount : count.toNat = (cs.foldl push entries).size) (hfuel : cs.length ≤ fuel) :
    ReadsAt (decodeFrom count fuel index entries) offset (cs.flatMap Constant.encode)
      ⟨cs.foldl push entries⟩ := by
  have hmax := count.toNat_lt
  induction cs generalizing fuel index entries offset with
  | nil =>
    cases fuel with
    | zero => exact .pure _
    | succ fuel =>
      have hend : ¬ index < count := by
        rw [UInt16.lt_iff_toNat_lt, hindex, hcount]
        exact Nat.lt_irrefl _
      unfold decodeFrom
      rw [if_neg hend]
      exact .pure _
  | cons c cs ih =>
    obtain ⟨fuel, rfl⟩ : ∃ n, fuel = n + 1 := ⟨fuel - 1, by
      rw [List.length_cons] at hfuel
      omega⟩
    have hle := size_le_foldl_push (push entries c) cs
    rw [List.foldl_cons] at hcount
    have hnext : (next index c).toNat = (push entries c).size ∧
        entries.size < (push entries c).size := by
      unfold next
      rw [UInt16.toNat_add, hindex, size_push]
      rw [size_push] at hle
      cases hwide : c.isWide with
      | true =>
        rw [hwide] at hle
        exact ⟨Nat.mod_eq_of_lt (by simp at hle ⊢; omega), by simp⟩
      | false =>
        rw [hwide] at hle
        exact ⟨Nat.mod_eq_of_lt (by simp at hle ⊢; omega), by simp⟩
    have hmore : index < count := by
      rw [UInt16.lt_iff_toNat_lt, hindex, hcount]
      omega
    unfold decodeFrom
    rw [if_pos hmore, List.flatMap_cons]
    exact (Constant.reads (hfits c List.mem_cons_self)).bind
      (ih _ (fun c' hc' => hfits c' (List.mem_cons_of_mem c hc')) hnext.1 hcount
        (Nat.le_of_succ_le_succ hfuel))

/-- **A pool is read back from its bytes.** -/
theorem reads (hlists : p.Lists cs) (hsize : p.entries.size ≤ 65535)
    (hfits : ∀ c ∈ cs, c.Fits) : ReadsAt decode offset p.encode p := by
  obtain ⟨entries⟩ := p
  subst hlists
  have hcount : (UInt16.ofNat (cs.foldl push #[none]).size).toNat = (cs.foldl push #[none]).size := by
    rw [UInt16.toNat_ofNat']
    exact Nat.mod_eq_of_lt (Nat.lt_succ_of_le hsize)
  rw [encode_eq rfl]
  refine (ReadsAt.u16 _).bind (ReadsAt.from_remaining fun n hn => ?_)
  have hbytes : cs.length ≤ (cs.flatMap Constant.encode).length :=
    length_le_flatMap (f := Constant.encode) (fun c => Nat.succ_pos c.payload.length) cs
  exact reads_from 1 hfits rfl hcount (Nat.le_succ_of_le (Nat.le_trans hbytes hn))

/-! ## Texts of a pool -/

/-- The constants of a pool are those that were pushed. -/
theorem mem_foldl_push {c : Constant} :
    some c ∈ cs.foldl push entries ↔ some c ∈ entries ∨ c ∈ cs := by
  induction cs generalizing entries with
  | nil => simp
  | cons c' cs ih =>
    have hpush : some c ∈ push entries c' ↔ some c ∈ entries ∨ c = c' := by
      unfold push
      split <;> simp
    rw [List.foldl_cons, ih, hpush, List.mem_cons, or_assoc]

/-- **Every text of the pool fits**: it has no more bytes than its length can say. -/
def TextsFit (p : Pool) : Prop :=
  ∀ text, some (Constant.utf8 text) ∈ p.entries → (ModifiedUtf8.encode text).length ≤ 65535

theorem TextsFit.fits (h : p.TextsFit) (hlists : p.Lists cs) : ∀ c ∈ cs, c.Fits := by
  intro c hc
  cases c with
  | utf8 text => exact h text (hlists ▸ mem_foldl_push.2 (.inr hc))
  | _ => trivial

end Pool

end ProxyForge
