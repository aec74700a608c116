import ProxyForge.ClassFile.Disassembly
import ProxyForge.CommandLine.Execution
import ProxyForge.Proofs.Reading
import ProxyForge.Proofs.Styled
/-!
# A disassembly without its colours

Whatever a disassembly shows is a word or a sign of its own, a number, or a text of the constant
pool, also where an index refers to nothing. So no control sequence begins in its spans if none
begins in a text of the pool (`Disassembly.noEscapes_ofClass`), and without its colours the coloured
form of a class file is the plain one (`uncolor_dumpText`).
-/

namespace ProxyForge

open Outcome Text Text.Styled

/-! ## Numbers and quoted texts -/

namespace Decimal

theorem noEscape_zeros (n : Nat) : NoEscape (zeros n) :=
  noEscape_ofList.2 fun hmem => absurd (List.eq_of_mem_replicate hmem) (by decide)

theorem noEscape_writeExponent (style : Style) (e : Int) : NoEscape (style.writeExponent e) := by
  unfold Style.writeExponent
  split <;> simp +decide

theorem noEscape_writeDigits (style : Style) (d : Digits) : NoEscape (style.writeDigits d) := by
  unfold Style.writeDigits
  obtain ⟨text, htext, hclean⟩ : ∃ text, toString d.digits = text ∧ NoEscape text :=
    ⟨_, rfl, noEscape_nat d.digits⟩
  rw [htext]
  -- the digits stand on both sides of the point
  have hpart {cs : List Char} (h : cs ⊆ text.toList) : NoEscape (String.ofList cs) :=
    noEscape_ofList.2 fun hmem => hclean (h hmem)
  dsimp only
  split
  · split
    · split <;> simp +decide [noEscape_zeros, hclean]
    · simp +decide [hpart (List.take_subset _ _), hpart (List.drop_subset _ _)]
  · split
    · simp +decide [noEscape_zeros, hclean]
    · split
      · exact noEscape_writeExponent style _
      · next first hfirst =>
        have hdigit : NoEscape first.toString := hpart (hfirst ▸ List.Subset.refl _)
        exact noEscape_append.2 ⟨hdigit, noEscape_writeExponent style _⟩
      · next first rest _ hfirst =>
        have hdigit : NoEscape (.singleton first) := hpart (by simp [hfirst])
        have hrest : NoEscape (String.ofList rest) := hpart (by simp [hfirst])
        simp +decide [hdigit, hrest, noEscape_writeExponent]

/-- **A number that is written out** has no escape character. -/
theorem noEscape_write (style : Style) (b : Binary) : NoEscape (style.write b) := by
  have hsign (negative : Bool) : NoEscape (if negative then "-" else "") := by
    cases negative <;> decide
  unfold Style.write
  split
  · decide
  · split <;> decide
  · refine noEscape_append.2 ⟨hsign _, ?_⟩
    split <;> decide
  · exact noEscape_append.2 ⟨hsign _, noEscape_writeDigits _ _⟩

end Decimal

namespace Text

theorem noEscape_escapeChar {c : Char} (h : c ≠ escape) : NoEscape (escapeChar c) := by
  have hplain : NoEscape c.toString := noEscape_ofList.2 (by simpa using h.symm)
  have hcode : NoEscape (escapeCode c) := by
    have hdigits : NoEscape (String.ofList (Nat.toDigits 16 c.toNat)) :=
      noEscape_ofList.2 (escape_notMem_toDigits (by decide) c.toNat)
    simp +decide [escapeCode, hdigits]
  unfold escapeChar
  split_ifs
  iterate 6 exact noEscape_ofList.2 (by decide)
  · exact hplain
  · exact hcode

/-- Quotes and what is escaped between them. -/
theorem noEscape_quote {s : String} (h : NoEscape s) : NoEscape (quote s) := by
  have hchars : ∀ t ∈ s.toList.map escapeChar, NoEscape t :=
    List.forall_mem_map.2 fun c hc => noEscape_escapeChar fun heq => h (heq ▸ hc)
  simp +decide [quote, noEscape_join hchars]

end Text

/-! ## The constant pool -/

namespace Pool

variable {pool : Pool} {index : UInt16}

/-- **No control sequence begins in a text of the pool.** -/
def NoEscapes (pool : Pool) : Prop :=
  ∀ text, some (Constant.utf8 text) ∈ pool.entries → NoEscape text

theorem mem_of_get {c : Constant} (h : pool.get index = .ok c) : some c ∈ pool.entries := by
  unfold get at h
  split at h
  · next c' hc =>
    cases h
    exact Array.mem_of_getElem? hc
  · cases h

/-- A look-up shows what it found, or a question mark. -/
theorem noEscape_orUnknown {x : Except FormatError String} (h : ∀ s, x = .ok s → NoEscape s) :
    NoEscape (orUnknown x) := by
  unfold orUnknown
  split
  · exact h _ rfl
  · decide

namespace NoEscapes

theorem utf8 (h : pool.NoEscapes) {s : String} (hs : pool.utf8 index = .ok s) : NoEscape s := by
  obtain ⟨c, hc, hrest⟩ := bind_eq_ok.1 hs
  split at hrest
  · cases hrest
    exact h s (mem_of_get hc)
  · cases hrest

theorem className (h : pool.NoEscapes) {s : String} (hs : pool.className index = .ok s) :
    NoEscape s := by
  obtain ⟨c, -, hrest⟩ := bind_eq_ok.1 hs
  split at hrest
  · exact h.utf8 hrest
  · cases hrest

theorem nameAndType (h : pool.NoEscapes) {pair : String × String}
    (hpair : pool.nameAndType index = .ok pair) : NoEscape pair.1 ∧ NoEscape pair.2 := by
  obtain ⟨c, -, hrest⟩ := bind_eq_ok.1 hpair
  split at hrest
  · obtain ⟨name, hname, hrest⟩ := bind_eq_ok.1 hrest
    obtain ⟨descriptor, hdescriptor, hresult⟩ := bind_eq_ok.1 hrest
    cases hresult
    exact ⟨h.utf8 hname, h.utf8 hdescriptor⟩
  · cases hrest

theorem memberRef (h : pool.NoEscapes) {m : MemberRef} (hm : pool.memberRef index = .ok m) :
    NoEscape m.owner ∧ NoEscape m.name ∧ NoEscape m.descriptor := by
  have hresolve {owner member : UInt16} {inInterface : Bool}
      (hm : pool.resolve owner member inInterface = .ok m) :
      NoEscape m.owner ∧ NoEscape m.name ∧ NoEscape m.descriptor := by
    obtain ⟨pair, hpair, hrest⟩ := bind_eq_ok.1 hm
    obtain ⟨name, hname, hresult⟩ := bind_eq_ok.1 hrest
    cases hresult
    exact ⟨h.className hname, h.nameAndType hpair⟩
  obtain ⟨c, -, hrest⟩ := bind_eq_ok.1 hm
  split at hrest
  · exact hresolve hrest
  · exact hresolve hrest
  · exact hresolve hrest
  · cases hrest

theorem describe_member (h : pool.NoEscapes) : NoEscape (orUnknown do
    let m ← pool.memberRef index
    return m.owner ++ "." ++ m.name ++ ":" ++ m.descriptor) := by
  refine noEscape_orUnknown fun s hs => ?_
  obtain ⟨m, hm, hresult⟩ := bind_eq_ok.1 hs
  cases hresult
  obtain ⟨howner, hname, hdescriptor⟩ := h.memberRef hm
  simp +decide [howner, hname, hdescriptor]

theorem describe_nameAndType (h : pool.NoEscapes) : NoEscape (orUnknown do
    let (name, descriptor) ← pool.nameAndType index
    return name ++ ":" ++ descriptor) := by
  refine noEscape_orUnknown fun s hs => ?_
  obtain ⟨pair, hpair, hresult⟩ := bind_eq_ok.1 hs
  cases hresult
  obtain ⟨hname, hdescriptor⟩ := h.nameAndType hpair
  simp +decide [hname, hdescriptor]

/-- **What is shown of an index**, whatever it refers to. -/
theorem describe (h : pool.NoEscapes) (index : UInt16) : NoEscape (pool.describe index) := by
  unfold Pool.describe
  cases hget : pool.get index with
  | error e => simp +decide
  | ok c =>
    cases c with
    | utf8 text => exact h text (mem_of_get hget)
    | integer value => exact noEscape_int32 value
    | float bits => exact noEscape_append.2 ⟨Decimal.noEscape_write _ _, by decide⟩
    | long value => exact noEscape_append.2 ⟨noEscape_int64 value, by decide⟩
    | double bits => exact noEscape_append.2 ⟨Decimal.noEscape_write _ _, by decide⟩
    | classRef name => exact noEscape_orUnknown fun s => h.className
    | string text => exact noEscape_quote (noEscape_orUnknown fun s => h.utf8)
    | fieldRef owner member | methodRef owner member | interfaceMethodRef owner member =>
      exact h.describe_member
    | nameAndType name descriptor => exact h.describe_nameAndType
    | methodType descriptor => exact noEscape_orUnknown fun s => h.utf8
    | methodHandle | dynamic | invokeDynamic | module | package =>
      dsimp only [Constant.kind]
      decide

end NoEscapes

end Pool

/-! ## Code -/

namespace Disassembly

variable {pool : Pool}

theorem noEscapes_line {t : Styled} (h : t.NoEscapes) : (line t).NoEscapes :=
  noEscapes_append.2 ⟨h, noEscapes_plain.2 (by decide)⟩

theorem noEscapes_listing {heading : String} (hheading : NoEscape heading) {lines : List Styled}
    (h : ∀ t ∈ lines, t.NoEscapes) : (listing heading lines).NoEscapes := by
  unfold listing
  split
  · exact noEscapes_nil
  · exact noEscapes_append.2
      ⟨noEscapes_line (noEscapes_plain.2 hheading), noEscapes_flatten h⟩

theorem noEscapes_constantRef (h : pool.NoEscapes) (index : UInt16) :
    (constantRef pool index).NoEscapes := by
  simp +decide [constantRef, h.describe]

theorem noEscape_typeWord (h : pool.NoEscapes) (type : VerificationType) :
    NoEscape (typeWord pool type) := by
  unfold typeWord
  split
  iterate 7 exact noEscape_ofList.2 (by decide)
  · exact Pool.noEscape_orUnknown fun s => h.className
  · simp +decide

theorem noEscape_listTypes (h : pool.NoEscapes) (types : List VerificationType) :
    NoEscape (listTypes pool types) := by
  have hwords := noEscape_intercalate (s := ", ") (by decide)
    (List.forall_mem_map.2 fun type (_ : type ∈ types) => noEscape_typeWord h type)
  simp +decide [listTypes, hwords]

theorem noEscapes_switchArms (cases : List (Int32 × UInt32)) (fallback : UInt32) :
    (switchArms cases fallback).NoEscapes := by
  have harms := noEscapes_flatMap (f := fun c => switchArm c.1 c.2) fun c (_ : c ∈ cases) => by
    simp +decide [switchArm]
  simp +decide [switchArms, harms]

/-- **The operands of an instruction**, of whatever shape. -/
theorem noEscapes_operand (h : pool.NoEscapes) (o : Operand) : (operand pool o).NoEscapes := by
  cases o with
  | tableSwitch fallback low targets | lookupSwitch fallback cases =>
    exact noEscapes_switchArms _ fallback
  | _ => simp +decide [operand, noEscapes_constantRef h]

theorem noEscape_mnemonic (i : Instruction) : NoEscape i.mnemonic := by
  have hall : ∀ name ∈ Opcode.mnemonics, NoEscape name := by decide +kernel
  unfold Instruction.mnemonic Opcode.mnemonic
  cases hname : Opcode.mnemonics[i.opcode.toNat]? with
  | none => decide
  | some name => exact hall name (Array.mem_of_getElem? hname)

theorem noEscapes_instruction (h : pool.NoEscapes) (width : Nat) (i : Instruction) :
    (instruction pool width i).NoEscapes :=
  noEscapes_line (by simp +decide [noEscape_mnemonic, noEscapes_operand h])

theorem noEscapes_handler (h : pool.NoEscapes) (entry : HandlerEntry) :
    (handler pool entry).NoEscapes := by
  have hcaught : NoEscape (if entry.catchType = 0 then "any" else
      Pool.orUnknown (pool.className entry.catchType)) := by
    split
    · decide
    · exact Pool.noEscape_orUnknown fun s => h.className
  exact noEscapes_line (by simp +decide [hcaught])

theorem noEscape_frame (h : pool.NoEscapes) (f : Frame) : NoEscape (frame pool f) := by
  have hlabelled {label : String} (hlabel : NoEscape label) (types : List VerificationType) :
      NoEscape (label ++ listTypes pool types) :=
    noEscape_append.2 ⟨hlabel, noEscape_listTypes h types⟩
  cases f with
  | same delta =>
    dsimp only [frame]
    decide
  | sameWithItem delta item => exact hlabelled (by decide) [item]
  | chop delta count => exact noEscape_append.2 ⟨by decide, noEscape_uint8 count⟩
  | append delta locals => exact hlabelled (by decide) locals
  | full delta locals stack =>
    have hlocals : NoEscape ("full locals=" ++ listTypes pool locals) :=
      hlabelled (by decide) locals
    have hmark := noEscape_append.2 ⟨hlocals, (by decide : NoEscape " stack=")⟩
    exact noEscape_append.2 ⟨hmark, noEscape_listTypes h stack⟩

theorem noEscapes_frameLine (h : pool.NoEscapes) (f : Frame) (offset : UInt32) :
    (frameLine pool f offset).NoEscapes := by
  have hform : NoEscape (": " ++ frame pool f) :=
    noEscape_append.2 ⟨by decide, noEscape_frame h f⟩
  have hmargin : NoEscape "      " := by decide
  exact noEscapes_line (by simp [hmargin, hform])

/-- **The code of a method.** -/
theorem noEscapes_code (h : pool.NoEscapes) {body : CodeBody} {t : Styled}
    (ht : code pool body = .ok t) : t.NoEscapes := by
  obtain ⟨instructions, -, hrest⟩ := bind_eq_ok.1 ht
  obtain ⟨frames, -, hresult⟩ := bind_eq_ok.1 hrest
  cases hresult
  have hsizes : (line (plain "    " ++
      styled .dim s!"stack={body.maxStack}, locals={body.maxLocals}")).NoEscapes :=
    noEscapes_line (by simp +decide)
  have hinstructions := noEscapes_flatMap fun i (_ : i ∈ instructions) =>
    noEscapes_instruction h (toString body.code.length).length i
  have hhandlers := noEscapes_listing (by decide : NoEscape "    exceptions:")
    (List.forall_mem_map.2 fun entry (_ : entry ∈ body.handlers) => noEscapes_handler h entry)
  have hlines : ∀ t ∈ List.zipWith (frameLine pool) frames (Frame.offsets frames),
      t.NoEscapes := by
    rw [← List.map_uncurry_zip_eq_zipWith]
    exact List.forall_mem_map.2 fun pair _ => noEscapes_frameLine h pair.1 pair.2
  have hframes := noEscapes_listing (by decide : NoEscape "    frames:") hlines
  simp only [noEscapes_append]
  exact ⟨⟨⟨hsizes, hinstructions⟩, hhandlers⟩, hframes⟩

end Disassembly

/-! ## What a class refers to -/

namespace ClassFile

variable {c : ClassFile} {m : Member}

/-- A text that is looked up by an index which is read. -/
theorem noEscape_of_lookup {look : UInt16 → Except FormatError String}
    (hlook : ∀ index s, look index = .ok s → NoEscape s) {cursor cursor' : Cursor} {s : String}
    (h : (do Decoder.lift (look (← Decoder.u16)) : Decoder String) cursor = .ok s cursor') :
    NoEscape s := by
  obtain ⟨index, c₁, -, hlift⟩ := bind_run_ok.1 h
  exact hlook index s (Decoder.of_lift hlift).1

theorem noEscape_superName (h : c.pool.NoEscapes) {s : String}
    (hsuper : c.superName = .ok (some s)) : NoEscape s := by
  unfold superName at hsuper
  split at hsuper
  · cases hsuper
  · rw [map_eq_pure_bind] at hsuper
    obtain ⟨s', hname, hresult⟩ := bind_eq_ok.1 hsuper
    cases hresult
    exact h.className hname

theorem noEscape_interfaceNames (h : c.pool.NoEscapes) {names : List String}
    (hnames : c.interfaceNames = .ok names) : ∀ s ∈ names, NoEscape s :=
  forall_mem_of_mapM hnames fun _ _ => h.className

theorem noEscape_declaredExceptions (h : c.pool.NoEscapes) {thrown : List String}
    (hthrown : c.declaredExceptions m = .ok thrown) : ∀ s ∈ thrown, NoEscape s := by
  obtain ⟨found, -, hrest⟩ := bind_eq_ok.1 hthrown
  cases found with
  | none =>
    cases hrest
    exact List.forall_mem_nil _
  | some a =>
    obtain ⟨_, hrun⟩ := Decoder.of_run hrest
    obtain ⟨n, c₁, -, hturn, -⟩ := Decoder.inTurn_of_counted hrun
    exact hturn.forall_mem fun _ _ _ => noEscape_of_lookup fun index s => h.className

theorem noEscape_sourceFile (h : c.pool.NoEscapes) {s : String}
    (hsource : c.sourceFile = .ok (some s)) : NoEscape s := by
  obtain ⟨found, -, hrest⟩ := bind_eq_ok.1 hsource
  cases found with
  | none => cases hrest
  | some a =>
    dsimp only at hrest
    rw [map_eq_pure_bind] at hrest
    obtain ⟨s', hrun, hresult⟩ := bind_eq_ok.1 hrest
    cases hresult
    obtain ⟨_, hread⟩ := Decoder.of_run hrun
    exact noEscape_of_lookup (fun index s => h.utf8) hread

theorem noEscape_decodeType (h : c.pool.NoEscapes) {fuel : Nat} {cursor cursor' : Cursor}
    {type : String} (htype : Annotation.decodeType c.pool fuel cursor = .ok type cursor') :
    NoEscape type := by
  unfold Annotation.decodeType at htype
  rw [← bind_assoc] at htype
  obtain ⟨type', c₁, hread, hrest⟩ := bind_run_ok.1 htype
  obtain ⟨-, c₂, -, hresult⟩ := bind_run_ok.1 hrest
  cases hresult
  exact noEscape_of_lookup (fun index s => h.utf8) hread

theorem noEscape_annotationTypes (h : c.pool.NoEscapes) {types : List String}
    (htypes : c.annotationTypes = .ok types) : ∀ s ∈ types, NoEscape s := by
  obtain ⟨found, -, hrest⟩ := bind_eq_ok.1 htypes
  cases found with
  | none =>
    cases hrest
    exact List.forall_mem_nil _
  | some a =>
    obtain ⟨_, hrun⟩ := Decoder.of_run hrest
    obtain ⟨types', c₁, hcounted, hend⟩ := bind_run_ok.1 hrun
    obtain ⟨n, c₂, -, hturn, -⟩ := Decoder.inTurn_of_counted hcounted
    obtain ⟨k, c₃, -, hresult⟩ := bind_run_ok.1 hend
    split at hresult
    · cases hresult
      exact hturn.forall_mem fun _ _ _ => noEscape_decodeType h
    · cases hresult

end ClassFile

/-! ## All of a class file -/

namespace Disassembly

variable {c : ClassFile} {m : Member}

/-- Keywords are words. -/
theorem noEscape_flagWords (flags : UInt16) (owner : Access.Owner) :
    NoEscape (flagWords flags owner) := by
  have htable : ∀ entry ∈ Access.table owner, NoEscape (entry.2 ++ " ") := by
    cases owner <;> decide +kernel
  refine noEscape_join (List.forall_mem_map.2 (List.forall_mem_map.2 fun entry hentry => ?_))
  exact htable entry (List.mem_of_mem_filter hentry)

theorem noEscape_nameList {word : String} (hword : NoEscape word) {names : List String}
    (h : ∀ name ∈ names, NoEscape name) : NoEscape (nameList word names) := by
  unfold nameList
  split
  · decide
  · exact noEscape_append.2 ⟨hword, noEscape_intercalate (by decide) h⟩

theorem noEscapes_field (h : c.pool.NoEscapes) {t : Styled} (ht : field c m = .ok t) :
    t.NoEscapes := by
  obtain ⟨name, hname, hrest⟩ := bind_eq_ok.1 ht
  obtain ⟨descriptor, hdescriptor, hresult⟩ := bind_eq_ok.1 hrest
  cases hresult
  exact noEscapes_line (by
    simp +decide [noEscape_flagWords, h.utf8 hname, h.utf8 hdescriptor])

theorem noEscapes_method (h : c.pool.NoEscapes) {t : Styled} (ht : method c m = .ok t) :
    t.NoEscapes := by
  obtain ⟨name, hname, hrest⟩ := bind_eq_ok.1 ht
  obtain ⟨descriptor, hdescriptor, hrest⟩ := bind_eq_ok.1 hrest
  obtain ⟨thrown, hthrown, hrest⟩ := bind_eq_ok.1 hrest
  obtain ⟨found, -, hrest⟩ := bind_eq_ok.1 hrest
  have hhead : (line (plain ("  " ++ flagWords m.access .method) ++ styled .blue name ++
      plain descriptor)).NoEscapes :=
    noEscapes_line (by simp +decide [noEscape_flagWords, h.utf8 hname, h.utf8 hdescriptor])
  have hthrows : Styled.NoEscapes (if thrown.isEmpty then [] else
      line (plain (nameList "    throws " thrown))) := by
    split
    · exact noEscapes_nil
    · exact noEscapes_line (noEscapes_plain.2
        (noEscape_nameList (by decide) (ClassFile.noEscape_declaredExceptions h hthrown)))
  have hlines := noEscapes_append.2 ⟨hhead, hthrows⟩
  cases found with
  | none =>
    cases hrest
    exact noEscapes_append.2 ⟨hlines, noEscapes_nil⟩
  | some a =>
    obtain ⟨body, hbody, hresult⟩ := bind_eq_ok.1 hrest
    cases hresult
    exact noEscapes_append.2 ⟨hlines, noEscapes_code h hbody⟩

theorem noEscapes_heading {name : String} (hname : NoEscape name) : (heading name).NoEscapes := by
  unfold heading
  exact noEscapes_append.2
    ⟨noEscapes_plain.2 (by decide), noEscapes_line (by simp +decide [hname])⟩

theorem noEscapes_header (h : c.pool.NoEscapes) {t : Styled} (ht : header c = .ok t) :
    t.NoEscapes := by
  obtain ⟨name, hname, hrest⟩ := bind_eq_ok.1 ht
  obtain ⟨superName, hsuper, hrest⟩ := bind_eq_ok.1 hrest
  obtain ⟨interfaces, hinterfaces, hrest⟩ := bind_eq_ok.1 hrest
  obtain ⟨source, hsource, hrest⟩ := bind_eq_ok.1 hrest
  obtain ⟨annotations, hannotations, hresult⟩ := bind_eq_ok.1 hrest
  cases hresult
  have hkind : NoEscape (if Access.has c.access Access.isInterface then "" else "class ") := by
    split <;> decide
  have himplements := noEscape_nameList (by decide : NoEscape " implements ")
    (ClassFile.noEscape_interfaceNames h hinterfaces)
  have hversion : (line (plain "  " ++
      styled .dim s!"version {c.major}.{c.minor}, constants {c.pool.count}")).NoEscapes :=
    noEscapes_line (by simp +decide)
  have hmarks := noEscapes_flatMap (f := fun type => line (plain ("  @" ++ type)))
    fun type htype => noEscapes_line (noEscapes_plain.2 (noEscape_append.2
      ⟨by decide, ClassFile.noEscape_annotationTypes h hannotations type htype⟩))
  refine noEscapes_append.2 ⟨noEscapes_append.2 ⟨noEscapes_append.2 ⟨noEscapes_line ?_, hversion⟩,
    ?_⟩, hmarks⟩
  · simp only [noEscapes_append, noEscapes_plain, noEscapes_styled, noEscape_append]
    refine ⟨⟨⟨⟨noEscape_flagWords c.access .type, hkind⟩, h.className hname⟩, ?_⟩, himplements⟩
    cases superName with
    | none => exact noEscape_ofList.2 (by decide)
    | some s => exact noEscape_append.2 ⟨by decide, ClassFile.noEscape_superName h hsuper⟩
  · cases source with
    | none => exact noEscapes_nil
    | some s =>
      have hs := ClassFile.noEscape_sourceFile h hsource
      exact noEscapes_line (by simp +decide [hs])

theorem noEscapes_fields (h : c.pool.NoEscapes) {t : Styled} (ht : fields c = .ok t) :
    t.NoEscapes := by
  unfold fields at ht
  split at ht
  · cases ht
    exact noEscapes_nil
  · obtain ⟨parts, hparts, hresult⟩ := bind_eq_ok.1 ht
    cases hresult
    exact noEscapes_append.2 ⟨noEscapes_heading (by decide),
      noEscapes_flatten (forall_mem_of_mapM hparts fun m t => noEscapes_field h)⟩

theorem noEscapes_methods (h : c.pool.NoEscapes) {t : Styled} (ht : methods c = .ok t) :
    t.NoEscapes := by
  obtain ⟨parts, hparts, hresult⟩ := bind_eq_ok.1 ht
  cases hresult
  have hmethods := forall_mem_of_mapM hparts fun m t => noEscapes_method h
  exact noEscapes_append.2 ⟨noEscapes_heading (by decide),
    noEscapes_intercalate (noEscapes_plain.2 (by decide)) hmethods⟩

/-- **No control sequence begins in a disassembly** if none begins in a text of the pool. -/
theorem noEscapes_ofClass (h : c.pool.NoEscapes) {t : Styled} (ht : ofClass c = .ok t) :
    t.NoEscapes := by
  obtain ⟨head, hhead, hrest⟩ := bind_eq_ok.1 ht
  obtain ⟨fields, hfields, hrest⟩ := bind_eq_ok.1 hrest
  obtain ⟨methods, hmethods, hresult⟩ := bind_eq_ok.1 hrest
  cases hresult
  exact noEscapes_append.2
    ⟨noEscapes_append.2 ⟨noEscapes_header h hhead, noEscapes_fields h hfields⟩,
      noEscapes_methods h hmethods⟩

end Disassembly

namespace CommandLine

variable {bytes : Bytes}

/-- **Colour is only decoration.** With colours or without, bytes are shown or they are not shown for
the same reason; and without its colours what is shown in colour is what is shown in none. -/
theorem uncolor_dumpText (h : ∀ c, ClassFile.ofBytes bytes = .ok c → c.pool.NoEscapes) :
    (dumpText .on bytes).map uncolor = dumpText .off bytes := by
  unfold dumpText
  cases hfile : ClassFile.ofBytes bytes with
  | error e => rfl
  | ok c =>
    change Except.map uncolor (orElse .classFile (Disassembly.ofClass c) >>= _) =
      orElse .classFile (Disassembly.ofClass c) >>= _
    cases ht : Disassembly.ofClass c with
    | error e => rfl
    | ok t =>
      exact congrArg Except.ok (uncolor_render (Disassembly.noEscapes_ofClass (h c hfile) ht))

/-- A class with a method whose first instruction refers to a constant that is not there. -/
def strayConstant : Bytes :=
  [0xca, 0xfe, 0xba, 0xbe, 0, 0, 0, 52, 0, 6, 1, 0, 1, 65, 7, 0, 1, 1, 0, 1, 102, 1, 0, 3, 40, 41,
    86, 1, 0, 4, 67, 111, 100, 101, 0, 33, 0, 2, 0, 0, 0, 0, 0, 0, 0, 1, 0, 9, 0, 3, 0, 4, 0, 1, 0,
    5, 0, 0, 0, 16, 0, 1, 0, 0, 0, 0, 0, 4, 18, 9, 87, 177, 0, 0, 0, 0, 0, 0]

theorem uncolor_dumpText_strayConstant :
    (∃ c, ClassFile.ofBytes strayConstant = .ok c) ∧
    (dumpText .on strayConstant).map uncolor = .ok ("public class A\n  version 52.0, " ++
      "constants 6\n\n[methods]\n  public static f()V\n    stack=1, locals=0\n" ++
      "    0: ldc #9 // <bad #9>\n    2: pop\n    3: return\n") := by
  have hfile : ClassFile.ofBytes strayConstant = .ok ⟨0, 52, ⟨#[none, some (.utf8 "A"),
      some (.classRef 1), some (.utf8 "f"), some (.utf8 "()V"), some (.utf8 "Code")]⟩, 33, 2, 0,
      [], [], [⟨9, 3, 4, [⟨5, [0, 1, 0, 0, 0, 0, 0, 4, 18, 9, 87, 177, 0, 0, 0, 0]⟩]⟩], []⟩ := by
    decide +kernel
  have hclean : ∀ c, ClassFile.ofBytes strayConstant = .ok c → c.pool.NoEscapes := by
    intro c hc text htext
    obtain rfl := Except.ok.inj (hfile.symm.trans hc)
    simp only [List.mem_toArray, List.mem_cons, List.not_mem_nil, or_false, Option.some.injEq,
      Constant.utf8.injEq, reduceCtorEq, false_or] at htext
    rcases htext with rfl | rfl | rfl | rfl <;> decide
  exact ⟨⟨_, hfile⟩, (uncolor_dumpText hclean).trans (by decide +kernel)⟩

end CommandLine

end ProxyForge
