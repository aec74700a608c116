import ProxyForge.ClassFile.Class
import ProxyForge.Proofs.ClassFile.Pool
/-!
# Class files, written and read

Every part of a class file is read back from its bytes, whatever stands behind them: attributes,
members, code. Each part asks that what it counts fits into the bytes of the count (`Fits`).
`ClassFile.ofBytes_encode` puts them together.
-/

namespace ProxyForge

open Outcome Decoder

variable {offset : Nat}

/-! ## Attributes and members -/

namespace Attribute

/-- The length of the body fits into four bytes. -/
def Fits (a : Attribute) : Prop :=
  a.body.length < 2 ^ 32

/-- There may be as many attributes, and each of them fits. -/
def AllFit (attributes : List Attribute) : Prop :=
  attributes.length ≤ 65535 ∧ ∀ a ∈ attributes, a.Fits

/-- **An attribute is read back from its bytes.** -/
theorem reads {a : Attribute} (h : a.Fits) : ReadsAt decode offset a.encode a := by
  unfold encode
  rw [List.append_assoc]
  refine (ReadsAt.u16 _).bind ((ReadsAt.u32 _).bind ?_)
  exact (ReadsAt.take_of_eq (Bytes.toNat_length32 h)).map (Attribute.mk a.nameIndex)

theorem reads_all {attributes : List Attribute} (h : AllFit attributes) :
    ReadsAt (counted decode) offset (encodeAll attributes) attributes :=
  ReadsAt.counted attributes h.1 fun a ha _ => reads (h.2 a ha)

/-- The first attribute has the name that is looked for. -/
theorem find_cons_of_eq {pool : Pool} {name : String} {a : Attribute} {rest : List Attribute}
    (h : pool.utf8 a.nameIndex = .ok name) : find pool name (a :: rest) = .ok (some a) :=
  bind_eq_ok.2 ⟨name, h, if_pos rfl⟩

/-- The first attribute has another name. -/
theorem find_cons_of_ne {pool : Pool} {name other : String} {a : Attribute} {rest : List Attribute}
    (h : pool.utf8 a.nameIndex = .ok other) (hne : other ≠ name) :
    find pool name (a :: rest) = find pool name rest := by
  rw [find, h]
  exact if_neg hne

end Attribute

namespace Member

/-- **A member is read back from its bytes.** -/
theorem reads {m : Member} (h : Attribute.AllFit m.attributes) :
    ReadsAt decode offset m.encode m := by
  unfold encode
  rw [List.append_assoc, List.append_assoc]
  refine (ReadsAt.u16 _).bind ((ReadsAt.u16 _).bind ((ReadsAt.u16 _).bind ?_))
  exact (Attribute.reads_all h).map (Member.mk m.access m.nameIndex m.descriptorIndex)

theorem reads_all {members : List Member} (hlen : members.length ≤ 65535)
    (h : ∀ m ∈ members, Attribute.AllFit m.attributes) :
    ReadsAt (counted decode) offset (encodeAll members) members :=
  ReadsAt.counted members hlen fun m hm _ => reads (h m hm)

end Member

/-! ## Code -/

theorem HandlerEntry.reads (h : HandlerEntry) : ReadsAt decode offset h.encode h := by
  unfold encode
  rw [List.append_assoc, List.append_assoc]
  refine (ReadsAt.u16 _).bind ((ReadsAt.u16 _).bind ((ReadsAt.u16 _).bind ?_))
  exact (ReadsAt.u16 _).map (HandlerEntry.mk h.start h.stop h.handler)

namespace CodeBody

/-- The counts of the code attribute fit. -/
structure Fits (c : CodeBody) : Prop where
  code : c.code.length < 2 ^ 32
  handlers : c.handlers.length ≤ 65535
  attributes : Attribute.AllFit c.attributes

theorem reads {c : CodeBody} (h : c.Fits) : ReadsAt decode offset c.encode c := by
  unfold encode
  simp only [List.append_assoc]
  refine (ReadsAt.u16 _).bind ((ReadsAt.u16 _).bind ((ReadsAt.u32 _).bind ?_))
  refine (ReadsAt.take_of_eq (Bytes.toNat_length32 h.code)).bind ?_
  rw [← List.append_assoc]
  refine (ReadsAt.counted c.handlers h.handlers fun entry _ _ => entry.reads).bind ?_
  exact (Attribute.reads_all h.attributes).map
    (CodeBody.mk c.maxStack c.maxLocals c.code c.handlers)

/-- **The body of a code attribute is read back from its bytes.** -/
theorem ofBytes_encode {c : CodeBody} (h : c.Fits) : ofBytes c.encode = .ok c :=
  (reads h).run_whole

end CodeBody

/-! ## Class files -/

namespace ClassFile

/-- **What can be written of a class file**: the pool lists constants, and all counts fit. -/
structure Fits (c : ClassFile) : Prop where
  lists : ∃ cs, c.pool.Lists cs
  size_le : c.pool.entries.size ≤ 65535
  texts : c.pool.TextsFit
  interfaces : c.interfaces.length ≤ 65535
  fields : c.fields.length ≤ 65535
  methods : c.methods.length ≤ 65535
  members : ∀ m ∈ c.fields ++ c.methods, Attribute.AllFit m.attributes
  attributes : Attribute.AllFit c.attributes

theorem reads {c : ClassFile} (h : c.Fits) : ReadsAt decode offset c.encode c := by
  obtain ⟨cs, hlists⟩ := h.lists
  unfold encode
  simp only [List.append_assoc]
  refine (ReadsAt.u32 _).bind ?_
  rw [if_neg (not_not_intro rfl)]
  refine (ReadsAt.u16 _).bind ((ReadsAt.u16 _).bind ?_)
  refine (Pool.reads hlists h.size_le (h.texts.fits hlists)).bind ?_
  refine (ReadsAt.u16 _).bind ((ReadsAt.u16 _).bind ((ReadsAt.u16 _).bind ?_))
  rw [← List.append_assoc]
  refine (ReadsAt.counted c.interfaces h.interfaces fun i _ _ => ReadsAt.u16 i).bind ?_
  refine (Member.reads_all h.fields fun m hm => h.members m (List.mem_append_left _ hm)).bind ?_
  refine (Member.reads_all h.methods fun m hm => h.members m (List.mem_append_right _ hm)).bind ?_
  exact (Attribute.reads_all h.attributes).map (ClassFile.mk c.minor c.major c.pool c.access
    c.thisClass c.superClass c.interfaces c.fields c.methods)

/-- **A class file is read back from its bytes.** -/
theorem ofBytes_encode {c : ClassFile} {name : String} (h : c.Fits) (hname : c.thisName = .ok name) :
    ofBytes c.encode = .ok c :=
  bind_eq_ok.2 ⟨c, (reads h).run_whole, bind_eq_ok.2 ⟨name, hname, rfl⟩⟩

end ClassFile

end ProxyForge
