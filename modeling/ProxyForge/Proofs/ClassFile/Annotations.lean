import ProxyForge.ClassFile.Class
import ProxyForge.JvmType.Basic
import ProxyForge.Proofs.Reading
/-!
# Annotations and their values

A value of an annotation is an index into the pool behind a tag, or it nests: it may be an
annotation itself, or an array of values. `Value.encode` writes such a tree, and passing over a
value takes the bytes of one tree and no others (`Value.Fits.reads`, `Value.of_skip`). So what is
read of an attribute are the types of the annotations that it lists, whatever their values are
(`typesOf_eq_ok_iff`).
-/

namespace ProxyForge

open Outcome Decoder

namespace Annotation

/-! ## Values -/

/-- **A value.** What is in the pool is given by its index there. -/
inductive Value
  | number (kind : Primitive) (index : UInt16)
  | text (index : UInt16)
  | classInfo (descriptor : UInt16)
  | enumConstant (type name : UInt16)
  /-- An annotation. -/
  | nested (type : UInt16) (pairs : List (UInt16 × Value))
  | array (values : List Value)

/-- The byte of a letter. -/
def letterByte (c : Char) : UInt8 :=
  UInt8.ofNat c.toNat

namespace Value

mutual
/-- The bytes of a value: its tag, and what it is made of. -/
def encode : Value → Bytes
  | number kind index => letterByte kind.letter :: Bytes.be16 index
  | text index => letterByte 's' :: Bytes.be16 index
  | classInfo descriptor => letterByte 'c' :: Bytes.be16 descriptor
  | enumConstant type name => letterByte 'e' :: (Bytes.be16 type ++ Bytes.be16 name)
  | nested type pairs =>
    letterByte '@' :: (Bytes.be16 type ++ (Bytes.be16 (Bytes.length16 pairs) ++ encodePairs pairs))
  | array values => letterByte '[' :: (Bytes.be16 (Bytes.length16 values) ++ encodeAll values)

/-- The bytes of names and values. -/
def encodePairs : List (UInt16 × Value) → Bytes
  | [] => []
  | (name, value) :: rest => Bytes.be16 name ++ encode value ++ encodePairs rest

/-- The bytes of values. -/
def encodeAll : List Value → Bytes
  | [] => []
  | value :: rest => encode value ++ encodeAll rest
end

theorem encodePairs_eq (pairs : List (UInt16 × Value)) :
    encodePairs pairs = pairs.flatMap fun pair => Bytes.be16 pair.1 ++ pair.2.encode := by
  induction pairs with
  | nil => rw [encodePairs, List.flatMap_nil]
  | cons pair rest ih => rw [encodePairs, ih, List.flatMap_cons]

theorem encodeAll_eq (values : List Value) : encodeAll values = values.flatMap encode := by
  induction values with
  | nil => rw [encodeAll, List.flatMap_nil]
  | cons value rest ih => rw [encodeAll, ih, List.flatMap_cons]

/-- **The numbers of pairs and of values fit** into two bytes, at every level. -/
inductive Fits : Value → Prop
  | number (kind : Primitive) (index : UInt16) : Fits (number kind index)
  | text (index : UInt16) : Fits (text index)
  | classInfo (descriptor : UInt16) : Fits (classInfo descriptor)
  | enumConstant (type name : UInt16) : Fits (enumConstant type name)
  | nested {type : UInt16} {pairs : List (UInt16 × Value)} (hlen : pairs.length ≤ 65535)
      (h : ∀ pair ∈ pairs, Fits pair.2) : Fits (nested type pairs)
  | array {values : List Value} (hlen : values.length ≤ 65535) (h : ∀ value ∈ values, Fits value) :
      Fits (array values)

end Value

/-! ## Passing over values -/

variable {offset fuel : Nat} {c c' : Cursor}

/-- Passed over one behind the other. -/
theorem reads_repeated {α : Type} {d : Decoder Unit} {enc : α → Bytes} {xs : List α}
    (h : ∀ x ∈ xs, ∀ offset, ReadsAt d offset (enc x) ()) :
    ReadsAt (repeated d xs.length) offset (xs.flatMap enc) () := by
  induction xs generalizing offset with
  | nil => exact .pure ()
  | cons x xs ih =>
    rw [List.flatMap_cons]
    exact (h x List.mem_cons_self offset).bind
      (ih fun y hy => h y (List.mem_cons_of_mem x hy))

/-- And their number in front of them. -/
theorem reads_pairs {pairs : List (UInt16 × Value)} (hlen : pairs.length ≤ 65535)
    (h : ∀ pair ∈ pairs, ∀ offset, ReadsAt (skipValue fuel) offset pair.2.encode ()) :
    ReadsAt (skipPairs fuel) offset
      (Bytes.be16 (Bytes.length16 pairs) ++ Value.encodePairs pairs) () := by
  refine (ReadsAt.u16 _).bind ?_
  rw [Bytes.toNat_length16 hlen, Value.encodePairs_eq]
  exact reads_repeated fun pair hpair offset => (ReadsAt.u16 _).bind (h pair hpair _)

/-- A tag and an index are passed over at once. -/
theorem reads_index {tag : UInt8} (h : indexTags.contains tag = true) (index : UInt16) :
    ReadsAt (skipValue (fuel + 1)) offset (tag :: Bytes.be16 index) () := by
  refine ReadsAt.from_u8 ?_
  rw [if_pos h]
  exact ReadsAt.skip (Bytes.be16 index)

namespace Value

/-- A tag takes a byte. -/
theorem exists_fuel {v : Value} (h : v.encode.length ≤ fuel) : ∃ n, fuel = n + 1 := by
  have hpos : 0 < v.encode.length := by
    cases v <;> exact Nat.succ_pos _
  exact Nat.exists_eq_add_one_of_ne_zero (Nat.ne_zero_of_lt (Nat.lt_of_lt_of_le hpos h))

/-- A value has no more bytes than the pairs that it is in. -/
theorem length_encode_le {pairs : List (UInt16 × Value)} {pair : UInt16 × Value}
    (h : pair ∈ pairs) : pair.2.encode.length ≤ (encodePairs pairs).length := by
  have hle := length_le_flatMap_of_mem (f := fun pair => Bytes.be16 pair.1 ++ pair.2.encode) h
  rw [← encodePairs_eq, List.length_append] at hle
  exact Nat.le_trans (Nat.le_add_left _ _) hle

/-- **A value is passed over**, whatever it nests, if there is fuel for its bytes. -/
theorem Fits.reads {v : Value} (h : v.Fits) (hfuel : v.encode.length ≤ fuel) :
    ReadsAt (skipValue fuel) offset v.encode () := by
  -- each level takes its tag, so fuel for the bytes of a value is fuel for what it nests
  induction h generalizing fuel offset with
  | number kind index =>
    obtain ⟨fuel, rfl⟩ := exists_fuel hfuel
    rw [encode]
    exact reads_index (by cases kind <;> rfl) index
  | text index =>
    obtain ⟨fuel, rfl⟩ := exists_fuel hfuel
    rw [encode]
    exact reads_index rfl index
  | classInfo descriptor =>
    obtain ⟨fuel, rfl⟩ := exists_fuel hfuel
    rw [encode]
    exact reads_index rfl descriptor
  | enumConstant type name =>
    obtain ⟨fuel, rfl⟩ := exists_fuel hfuel
    rw [encode]
    refine ReadsAt.from_u8 ?_
    rw [if_neg (by decide), if_pos (by decide)]
    exact ReadsAt.skip (Bytes.be16 type ++ Bytes.be16 name)
  | @nested type pairs hlen _ ih =>
    obtain ⟨fuel, rfl⟩ := exists_fuel hfuel
    rw [encode, List.length_cons, List.length_append, List.length_append] at hfuel
    rw [encode]
    refine ReadsAt.from_u8 ?_
    rw [if_neg (by decide), if_neg (by decide), if_pos (by decide)]
    refine (ReadsAt.u16 type).bind (reads_pairs hlen fun pair hpair offset => ih pair hpair ?_)
    have hle := length_encode_le hpair
    omega
  | @array values hlen _ ih =>
    obtain ⟨fuel, rfl⟩ := exists_fuel hfuel
    rw [encode, List.length_cons, List.length_append] at hfuel
    rw [encode]
    refine ReadsAt.from_u8 ?_
    rw [if_neg (by decide), if_neg (by decide), if_neg (by decide), if_pos (by decide)]
    refine (ReadsAt.u16 _).bind ?_
    rw [Bytes.toNat_length16 hlen, encodeAll_eq]
    refine reads_repeated fun value hvalue offset => ih value hvalue ?_
    have hle := length_le_flatMap_of_mem (f := encode) hvalue
    rw [← encodeAll_eq] at hle
    omega

end Value

/-! ## What was passed over -/

/-- As many things were passed over as were asked for. -/
theorem of_repeated {α : Type} {d : Decoder Unit} {enc : α → Bytes} {P : α → Prop}
    (hd : ∀ c c', d c = .ok () c' → ∃ x, P x ∧ c.rest = enc x ++ c'.rest) {n : Nat}
    (h : repeated d n c = .ok () c') :
    ∃ xs : List α, xs.length = n ∧ (∀ x ∈ xs, P x) ∧ c.rest = xs.flatMap enc ++ c'.rest := by
  induction n generalizing c with
  | zero =>
    cases h
    exact ⟨[], rfl, List.forall_mem_nil _, rfl⟩
  | succ n ih =>
    obtain ⟨_, c₁, hfirst, hrest⟩ := bind_run_ok.1 h
    obtain ⟨x, hx, hbytes⟩ := hd c c₁ hfirst
    obtain ⟨xs, hlength, hxs, hmore⟩ := ih hrest
    refine ⟨x :: xs, congrArg (· + 1) hlength, List.forall_mem_cons.2 ⟨hx, hxs⟩, ?_⟩
    rw [hbytes, hmore, List.flatMap_cons, List.append_assoc]

/-- Pairs of names and values were passed over if what is passed over as a value is one. -/
theorem of_skipPairs
    (hvalue : ∀ c c', skipValue fuel c = .ok () c' →
      ∃ v : Value, v.Fits ∧ c.rest = v.encode ++ c'.rest)
    (h : skipPairs fuel c = .ok () c') :
    ∃ pairs : List (UInt16 × Value), pairs.length ≤ 65535 ∧ (∀ pair ∈ pairs, pair.2.Fits) ∧
      c.rest = Bytes.be16 (Bytes.length16 pairs) ++ Value.encodePairs pairs ++ c'.rest := by
  obtain ⟨n, c₁, hn, hrest⟩ := bind_run_ok.1 h
  have hpair : ∀ c c', (do let _ ← u16; skipValue fuel : Decoder Unit) c = .ok () c' →
      ∃ pair : UInt16 × Value, pair.2.Fits ∧
        c.rest = (Bytes.be16 pair.1 ++ pair.2.encode) ++ c'.rest := by
    intro c c' hpair
    obtain ⟨name, c₁, hname, hskip⟩ := bind_run_ok.1 hpair
    obtain ⟨v, hv, hbytes⟩ := hvalue c₁ c' hskip
    refine ⟨(name, v), hv, ?_⟩
    rw [rest_of_u16 hname, hbytes, ← List.append_assoc]
  obtain ⟨pairs, hlength, hfits, hbytes⟩ := of_repeated hpair hrest
  obtain ⟨hcount, hlen⟩ := Bytes.length16_of_length_eq hlength
  refine ⟨pairs, hlen, hfits, ?_⟩
  rw [rest_of_u16 hn, hbytes, hcount, Value.encodePairs_eq, List.append_assoc]

namespace Value

/-- The value of a tag with an index. -/
theorem exists_of_indexTag {tag : UInt8} (h : indexTags.contains tag = true) (index : UInt16) :
    ∃ v : Value, v.Fits ∧ v.encode = tag :: Bytes.be16 index := by
  have hmem := List.contains_iff_mem.1 h
  simp only [indexTags, List.map_cons, List.map_nil, List.mem_cons, List.not_mem_nil,
    or_false] at hmem
  have hnumber (kind : Primitive) :
      ∃ v : Value, v.Fits ∧ v.encode = letterByte kind.letter :: Bytes.be16 index :=
    ⟨_, .number kind index, by rw [encode]⟩
  rcases hmem with rfl | rfl | rfl | rfl | rfl | rfl | rfl | rfl | rfl | rfl
  · exact hnumber .byte
  · exact hnumber .char
  · exact hnumber .double
  · exact hnumber .float
  · exact hnumber .int
  · exact hnumber .long
  · exact hnumber .short
  · exact hnumber .boolean
  · exact ⟨_, .text index, by rw [encode]; rfl⟩
  · exact ⟨_, .classInfo index, by rw [encode]; rfl⟩

/-- **What is passed over is a value.** -/
theorem of_skip (h : skipValue fuel c = .ok () c') :
    ∃ v : Value, v.Fits ∧ c.rest = v.encode ++ c'.rest := by
  induction fuel generalizing c c' with
  | zero => cases h
  | succ fuel ih =>
    obtain ⟨tag, c₁, htag, hrest⟩ := bind_run_ok.1 h
    rw [rest_of_u8 htag]
    -- the tag is an index, an enum constant, an annotation, an array, or none
    split at hrest
    · next hindex =>
      obtain ⟨bytes, hlength, hbytes⟩ := rest_of_skip hrest
      obtain ⟨a, b, rfl⟩ := List.length_eq_two.1 hlength
      obtain ⟨v, hv, hencode⟩ := exists_of_indexTag hindex (Bytes.ofBe16 a b)
      refine ⟨v, hv, ?_⟩
      rw [hencode, hbytes, Bytes.be16_ofBe16]
      rfl
    split at hrest
    · next htag =>
      subst htag
      obtain ⟨bytes, hlength, hbytes⟩ := rest_of_skip hrest
      obtain ⟨type, name, rfl⟩ : ∃ type name, bytes = Bytes.be16 type ++ Bytes.be16 name :=
        match bytes, hlength with
        | [a, b, a', b'], _ => ⟨Bytes.ofBe16 a b, Bytes.ofBe16 a' b', by
            rw [Bytes.be16_ofBe16, Bytes.be16_ofBe16]
            rfl⟩
      refine ⟨.enumConstant type name, .enumConstant type name, ?_⟩
      rw [hbytes, encode]
      rfl
    split at hrest
    · next htag =>
      subst htag
      obtain ⟨type, c₂, htype, hpairs⟩ := bind_run_ok.1 hrest
      obtain ⟨pairs, hlen, hfits, hbytes⟩ := of_skipPairs (fun c c' => ih) hpairs
      refine ⟨.nested type pairs, .nested hlen hfits, ?_⟩
      rw [rest_of_u16 htype, hbytes, encode, List.cons_append, List.append_assoc]
      rfl
    split at hrest
    · next htag =>
      subst htag
      obtain ⟨n, c₂, hn, hvalues⟩ := bind_run_ok.1 hrest
      obtain ⟨values, hlength, hfits, hbytes⟩ := of_repeated (fun c c' => ih) hvalues
      obtain ⟨hcount, hlen⟩ := Bytes.length16_of_length_eq hlength
      refine ⟨_, .array hlen hfits, ?_⟩
      rw [rest_of_u16 hn, hbytes, encode, hcount, encodeAll_eq, List.cons_append,
        List.append_assoc]
      rfl
    · cases hrest

end Value

end Annotation

/-! ## The annotations of an attribute -/

/-- **An annotation**: the index of its type, and names with values. -/
structure Annotation where
  type : UInt16
  pairs : List (UInt16 × Annotation.Value)

namespace Annotation

variable {pool : Pool} {annotations : List Annotation} {names : List String} {offset fuel : Nat}
  {c c' : Cursor} {name : String}

/-- The bytes of an annotation. -/
def encode (a : Annotation) : Bytes :=
  Bytes.be16 a.type ++ (Bytes.be16 (Bytes.length16 a.pairs) ++ Value.encodePairs a.pairs)

/-- The bytes of annotations behind their number. -/
def encodeAll (annotations : List Annotation) : Bytes :=
  Bytes.be16 (Bytes.length16 annotations) ++ annotations.flatMap encode

/-- **The number of pairs fits**, here and in the values. -/
structure Fits (a : Annotation) : Prop where
  length_le : a.pairs.length ≤ 65535
  value : ∀ pair ∈ a.pairs, pair.2.Fits

/-- **All numbers fit**, also that of the annotations. -/
structure AllFit (annotations : List Annotation) : Prop where
  length_le : annotations.length ≤ 65535
  fits : ∀ a ∈ annotations, a.Fits

/-- The types of annotations, as the pool has them. -/
def types (pool : Pool) (annotations : List Annotation) : Except FormatError (List String) :=
  annotations.mapM fun a => pool.utf8 a.type

/-- The name of a type, and pairs that are passed over. -/
theorem reads_type_of_pairs {type : UInt16} {bytes : Bytes} (hname : pool.utf8 type = .ok name)
    (h : ∀ offset, ReadsAt (skipPairs fuel) offset bytes ()) :
    ReadsAt (decodeType pool fuel) offset (Bytes.be16 type ++ bytes) name :=
  (ReadsAt.u16 type).bind ((ReadsAt.lift hname).bind ((h _).map fun _ => name))

/-- **An annotation is read as its type**, whatever its values are. -/
theorem reads_type {a : Annotation} (h : a.Fits) (hname : pool.utf8 a.type = .ok name)
    (hfuel : a.encode.length ≤ fuel) : ReadsAt (decodeType pool fuel) offset a.encode name := by
  refine reads_type_of_pairs hname fun offset => reads_pairs h.length_le fun pair hpair offset => ?_
  refine (h.value pair hpair).reads ?_
  have hle := Value.length_encode_le hpair
  rw [encode, List.length_append, List.length_append] at hfuel
  omega

/-- **Annotations are read as their types**, one behind the other. -/
theorem reads_types (h : AllFit annotations) (hnames : types pool annotations = .ok names)
    (hfuel : (encodeAll annotations).length ≤ fuel) :
    ReadsAt (counted (decodeType pool fuel)) offset (encodeAll annotations) names := by
  refine .counted_forall₂ h.length_le (forall₂_imp_of_mem (mapM_eq_ok hnames) ?_)
  intro a ha name _ hname offset
  refine reads_type (h.fits a ha) hname ?_
  have hle := length_le_flatMap_of_mem (f := encode) ha
  rw [encodeAll, List.length_append] at hfuel
  omega

/-- What is read as a type is an annotation. -/
theorem of_decodeType (h : decodeType pool fuel c = .ok name c') :
    ∃ a : Annotation, a.Fits ∧ pool.utf8 a.type = .ok name ∧ c.rest = a.encode ++ c'.rest := by
  obtain ⟨type, c₁, htype, hrest⟩ := bind_run_ok.1 h
  obtain ⟨name', c₂, hname, hrest⟩ := bind_run_ok.1 hrest
  obtain ⟨_, c₃, hpairs, hresult⟩ := bind_run_ok.1 hrest
  cases hresult
  obtain ⟨hfound, rfl⟩ := of_lift hname
  obtain ⟨pairs, hlen, hfits, hbytes⟩ := of_skipPairs (fun _ _ => Value.of_skip) hpairs
  refine ⟨⟨type, pairs⟩, ⟨hlen, hfits⟩, hfound, ?_⟩
  rw [rest_of_u16 htype, hbytes]
  simp only [encode, List.append_assoc]

/-- **What is read as types are annotations.** -/
theorem of_counted (h : counted (decodeType pool fuel) c = .ok names c') :
    ∃ annotations, AllFit annotations ∧ types pool annotations = .ok names ∧
      c.rest = encodeAll annotations ++ c'.rest := by
  obtain ⟨n, c₁, hn, hturn, hlength⟩ := inTurn_of_counted h
  have hall : ∃ annotations : List Annotation, (∀ a ∈ annotations, a.Fits) ∧
      List.Forall₂ (fun a name => pool.utf8 a.type = .ok name) annotations names ∧
      c₁.rest = annotations.flatMap encode ++ c'.rest := by
    clear h hlength hn
    induction hturn with
    | nil => exact ⟨[], List.forall_mem_nil _, .nil, rfl⟩
    | cons hd _ ih =>
      obtain ⟨a, hfits, hname, hbytes⟩ := of_decodeType hd
      obtain ⟨annotations, hmore, hnames, hrest⟩ := ih
      refine ⟨a :: annotations, List.forall_mem_cons.2 ⟨hfits, hmore⟩, .cons hname hnames, ?_⟩
      rw [hbytes, hrest, List.flatMap_cons, List.append_assoc]
  obtain ⟨annotations, hfits, hnames, hbytes⟩ := hall
  obtain ⟨hcount, hlen⟩ := Bytes.length16_of_length_eq (hnames.length_eq.trans hlength)
  refine ⟨annotations, ⟨hlen, hfits⟩, mapM_of_forall₂ hnames, ?_⟩
  rw [rest_of_u16 hn, hbytes, encodeAll, hcount, List.append_assoc]

/-- **The types in an attribute** are those of the annotations that fill it, and if there are no
such annotations there are no types. -/
theorem typesOf_eq_ok_iff {body : Bytes} : typesOf pool body = .ok names ↔
    ∃ annotations, AllFit annotations ∧ body = encodeAll annotations ∧
      types pool annotations = .ok names := by
  constructor
  · intro h
    obtain ⟨c, hwhole⟩ := of_run h
    obtain ⟨names', c₁, hcounted, hend⟩ := bind_run_ok.1 hwhole
    obtain ⟨left, c₂, hleft, hresult⟩ := bind_run_ok.1 hend
    cases hleft
    split at hresult
    · next hnone =>
      cases hresult
      obtain ⟨annotations, hfits, hnames, hbody⟩ := of_counted hcounted
      rw [List.eq_nil_of_length_eq_zero hnone, List.append_nil] at hbody
      exact ⟨annotations, hfits, hbody, hnames⟩
    · cases hresult
  · rintro ⟨annotations, hfits, rfl, hnames⟩
    exact (reads_types hfits hnames (Nat.le_succ _)).run_whole

end Annotation

end ProxyForge
