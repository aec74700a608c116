import ProxyForge.Proofs.ClassFile.Accepted
import ProxyForge.Proofs.Proxy.Contents
/-!
# When a generated class is intact

What is counted in a generated class is checked, but the lengths of its texts are not. So the class
file has the names that were asked for, and its bytes are read back as that class exactly if all its
texts fit (`generate_intact_iff`). If one does not, no reader finds it in the bytes.
-/

namespace ProxyForge

namespace Proxy

open Outcome

variable {g : Generator} {blueprint : Blueprint} {a : Artifact} {o : Outline} {access : UInt16}
  {interfaces : List String} {file : ClassFile} {b : PoolBuilder}

/-- **A class file has the names of its outline**, however long they are. -/
theorem Outline.named_of_classFile (h : o.classFile access interfaces .empty = .ok file b) :
    file.thisName = .ok o.thisName ∧ file.interfaceNames = .ok interfaces ∧
      List.Forall₂ (fun m member => file.memberName member = .ok m.name ∧
        file.memberDescriptor member = .ok m.descriptor) o.methods file.methods := by
  obtain ⟨s, hrecord, hfinish, -, -, hannotations, hpool, hparts⟩ := exists_parts h
  have hshown := hrecord.announced hfinish (by
    rw [hannotations]
    exact Nat.le_of_ble_eq_true rfl)
  exact ⟨hshown.thisName, hshown.interfaceNames,
    hparts.imp fun m member ⟨_, _, hmade, hgrows⟩ => (hmade.named hgrows hpool).2⟩

/-- **What is counted in a class file can be counted.** -/
theorem Outline.counted_of_classFile (h : o.classFile access interfaces .empty = .ok file b) :
    file.pool.count ≤ 65535 ∧ file.interfaces.length ≤ 65535 ∧ file.fields.length ≤ 65535 ∧
      file.methods.length ≤ 65535 := by
  obtain ⟨s, -, -, hfinish⟩ := exists_session h
  obtain ⟨_, _, _, -, -, hinterfaces, hfields, hmethods, rfl⟩ := Code.ClassDraft.finish_ok hfinish
  refine ⟨b.size_le, hinterfaces, ?_, ?_⟩
  · rwa [List.length_reverse]
  · rwa [List.length_reverse]

/-- **Nothing but the length of a text is truncated.** The class file of a generated class has the
names that were asked for, and no more parts than can be counted; its bytes are read back as that
class file exactly if every text in it fits, and whatever they are read back as has texts that
fit. -/
theorem generate_intact_iff (h : generate g blueprint = .ok a) : ∃ file,
    blueprint.classFile g = .ok file ∧ a.bytes = file.encode ∧
      file.thisName = .ok (Name.toInternal blueprint.name) ∧
      file.interfaceNames = .ok (blueprint.interfaces g.bindings) ∧
      List.Forall₂ (fun m member => file.memberName member = .ok m.2.1 ∧
          file.memberDescriptor member = .ok m.2.2.1)
        (Contents.methods g.bindings blueprint.baseParams a.members) file.methods ∧
      file.pool.count ≤ 65535 ∧ file.interfaces.length ≤ 65535 ∧ file.fields.length ≤ 65535 ∧
      file.methods.length ≤ 65535 ∧
      (ClassFile.ofBytes a.bytes = .ok file ↔ file.pool.TextsFit) ∧
      ∀ c, ClassFile.ofBytes a.bytes = .ok c → c.pool.TextsFit := by
  obtain ⟨o, file, b, houtline, hrun, hfile, hmembers, hbytes⟩ := generate_ok h
  obtain ⟨hplan, hbindings, hbase, hthis, -⟩ := outline_eq_ok houtline
  obtain ⟨hname, hinterfaces, hmethods⟩ := Outline.named_of_classFile hrun
  obtain ⟨hpool, hfew, hfields, hcount⟩ := Outline.counted_of_classFile hrun
  refine ⟨file, hfile, hbytes, hthis ▸ hname, hinterfaces, ?_, hpool, hfew, hfields, hcount,
    ⟨ClassFile.textsFit_of_ofBytes, fun htexts => hbytes ▸ (Outline.read_back hrun htexts).1⟩,
    fun _ => ClassFile.textsFit_of_ofBytes⟩
  rw [hmembers, ← hbindings, ← hbase, ← Outline.map_methods (placed_of_ofSurface hplan),
    List.forall₂_map_left_iff]
  exact hmethods

/-- A name of a length. -/
def nameOf (n : Nat) : String :=
  String.ofList (List.replicate n 'a')

theorem isBinary_nameOf (n : Nat) : Name.isBinary (nameOf (n + 1)) := by
  have hdot : '.' ∉ List.replicate (n + 1) 'a' := fun h =>
    absurd (List.eq_of_mem_replicate h) (by decide)
  have hstart : Name.isIdentifierStart 'a' = true := by decide
  have hpart : Name.isIdentifierPart 'a' = true := by decide
  have hidentifier : Name.isIdentifier (List.replicate (n + 1) 'a') = true := by
    rw [List.replicate_succ, Name.isIdentifier, hstart, List.all_replicate, hpart]
    cases n <;> rfl
  have hne : nameOf (n + 1) ≠ "" := by
    intro h
    have hlength := congrArg String.length h
    rw [nameOf, String.length_ofList, List.length_replicate] at hlength
    cases hlength
  unfold Name.isBinary
  rw [decide_eq_true hne, nameOf, String.toList_ofList, Name.splitAt_of_notMem hdot, List.all_cons,
    hidentifier]
  rfl

theorem length_toInternal_nameOf (n : Nat) : (Name.toInternal (nameOf n)).toList.length = n := by
  rw [Name.toList_toInternal, List.length_map, nameOf, String.toList_ofList, List.length_replicate]

/-- A class with a name that does not fit is generated, but no reader finds its name. -/
theorem generate_intact_longName : ∃ a, generate .standard (redundant (nameOf 65536)) = .ok a ∧
    ∀ c, ClassFile.ofBytes a.bytes = .ok c →
      c.thisName ≠ .ok (Name.toInternal (nameOf 65536)) := by
  have hname : Name.isBinary (nameOf 65536) := isBinary_nameOf 65535
  have htyped := typed_redundant hname
  have hsorted := Dispatcher.byId_eq htyped.numbered.ids
  have hspan : ∀ m ∈ ((redundant (nameOf 65536)).outlineBelow "java/lang/Object" .standard).methods,
      ∀ body ∈ m.body, Code.Op.span body.ops ≤ 32767 := by
    simp only [Outline.methods, Dispatcher.dispatch, Dispatcher.dispatchBody, hsorted]
    decide +kernel
  have hroom : 1 + ((redundant (nameOf 65536)).outlineBelow "java/lang/Object" .standard).room
      ((redundant (nameOf 65536)).interfaces Generator.standard.bindings) ≤ PoolBuilder.limit := by
    simp only [Outline.room, Outline.methods, Dispatcher.dispatch, Dispatcher.dispatchBody,
      hsorted]
    decide +kernel
  obtain ⟨a, file, ha, -, -⟩ := exists_generate (P := fun _ => True) (outline_redundant hname)
    htyped ⟨fun _ _ => trivial, hspan, fun _ _ _ _ => .any⟩ hroom
  obtain ⟨_, -, -, -, -, -, -, -, -, -, -, hfit⟩ := generate_intact_iff ha
  refine ⟨a, ha, fun c hc hthis => ?_⟩
  obtain ⟨constant, -, hrest⟩ := bind_eq_ok.1 hthis
  split at hrest
  · have hbytes := (hfit c hc).utf8 hrest
    have hchars := ModifiedUtf8.length_le_encode (Name.toInternal (nameOf 65536))
    rw [length_toInternal_nameOf] at hchars
    omega
  · cases hrest

end Proxy

end ProxyForge
