import ProxyForge.Proofs.Json.Layout
import ProxyForge.Proofs.SourceName
import ProxyForge.Surface.Json
/-!
# Surfaces, written and read

A surface is read back from its JSON (`Surface.ofJsonText_toJson`): each part is what a reader makes
of a node that shows it (`Json.Reads`), and an object is read field by field (`Json.ReadsFields`). Any
text may stand for a name or an exception; a type has to be one that some source text names. The
signature of a method, which lies among its own fields, is put together from the fields that are
none of them.
-/

namespace ProxyForge

open Outcome

namespace Json

variable {α β : Type} {depth : Nat}

/-- **What a reader makes of a value**: it makes it of a node that shows the value. -/
def Reads (decode : Node → Read α) (j : Json) (x : α) : Prop :=
  ∃ node, Shows j node ∧ decode node = .ok x

namespace Reads

theorem string (s : String) : Reads Node.asString (.str s) s :=
  ⟨.text (pieces s), .str s, usedText_pieces s⟩

theorem bool (b : Bool) : Reads Node.asBool (.bool b) b :=
  ⟨.bool b, .bool b, rfl⟩

/-- A string that may be absent, and is there. -/
theorem optional (s : String) : Reads (Node.asOption Node.asString) (.str s) (some s) :=
  ⟨.text (pieces s), .str s, by simp [Node.asOption, Node.asString, usedText_pieces]⟩

theorem variant {table : List (String × α)} {word : String} {x : α}
    (h : table.lookup word = some x) : Reads (Node.asVariant table) (.str word) x := by
  refine ⟨.text (pieces word), .str word, ?_⟩
  rw [Node.asVariant, usedText_pieces]
  simp [bind, Except.bind, Node.variant, h]

/-- **A list is read from its items.** -/
theorem list {item : Node → Read α} {write : α → Json} {xs : List α}
    (h : ∀ x ∈ xs, Reads item (write x) x) : Reads (Node.asList item) (.arr (xs.map write)) xs := by
  have hall : ∀ x, ∃ node, x ∈ xs → Shows (write x) node ∧ item node = .ok x := by
    intro x
    by_cases hx : x ∈ xs
    · obtain ⟨node, hnode⟩ := h x hx
      exact ⟨node, fun _ => hnode⟩
    · exact ⟨.null, fun hx' => absurd hx' hx⟩
  choose node hnode using hall
  refine ⟨.list (xs.map node) .closed, .list_map fun x hx => (hnode x hx).1, ?_⟩
  have hitems : (xs.map node).mapM item = .ok xs := by
    refine mapM_of_forall₂ (List.forall₂_map_left_iff.2 ?_)
    exact List.forall₂_same.2 fun x hx => (hnode x hx).2
  rw [Node.asList, hitems]
  rfl

theorem strings (texts : List String) :
    Reads (Node.asList Node.asString) (.arr (texts.map .str)) texts :=
  list fun s _ => string s

/-- The list of strings, read as a value whatever it is. -/
theorem asValue_texts (texts : List String) (hdepth : 1 < depth) :
    Reads (Node.asValue depth) (.arr (texts.map .str)) (.arr (texts.map .str)) := by
  refine ⟨.list (texts.map fun s => .text (pieces s)) .closed, .list_map fun s _ => .str s, ?_⟩
  have hitems : Node.asValues (depth - 1) (texts.map fun s => .text (pieces s)) =
      .ok (texts.map .str) := by
    induction texts with
    | nil => rfl
    | cons s texts ih =>
      simp [Node.asValues, Node.asValue, usedText_pieces, ih, bind, Except.bind, pure, Except.pure]
  rw [Node.asValue, if_neg (Nat.not_le_of_lt hdepth)]
  simp [hitems, Ending.check, bind, Except.bind, pure, Except.pure]

theorem asValue_text (depth : Nat) (s : String) : Reads (Node.asValue depth) (.str s) (.str s) := by
  refine ⟨.text (pieces s), .str s, ?_⟩
  simp [Node.asValue, usedText_pieces, bind, Except.bind, pure, Except.pure]

end Reads

/-! ## Fields -/

variable {σ : Type} {add : σ → List Piece × Node → Read σ} {fields more : List (String × Json)}
variable {p q r : σ}

/-- **Fields, read one after another**: from what was met before them a reader makes, of entries
that show them, what is met behind them. -/
def ReadsFields (add : σ → List Piece × Node → Read σ) (fields : List (String × Json)) (p q : σ) :
    Prop :=
  ∃ entries : List (String × Json × Node), (entries.map fun e => (e.1, e.2.1)) = fields ∧
    (∀ e ∈ entries, Shows e.2.1 e.2.2) ∧
    (entries.map fun e => (pieces e.1, e.2.2)).foldlM add p = .ok q

theorem ReadsFields.append (h : ReadsFields add fields p q) (h' : ReadsFields add more q r) :
    ReadsFields add (fields ++ more) p r := by
  obtain ⟨entries, rfl, hshows, hfold⟩ := h
  obtain ⟨entries', rfl, hshows', hfold'⟩ := h'
  refine ⟨entries ++ entries', List.map_append, List.forall_mem_append.2 ⟨hshows, hshows'⟩, ?_⟩
  rw [List.map_append, List.foldlM_append, hfold]
  exact hfold'

/-- **An object is read from its fields.** -/
theorem Reads.record {decode : Node → Read α} {x : α} (h : ReadsFields add fields p q)
    (hdecode : ∀ entries, entries.foldlM add p = .ok q → decode (.record entries .closed) = .ok x) :
    Reads decode (.obj fields) x := by
  obtain ⟨entries, rfl, hshows, hfold⟩ := h
  exact ⟨_, .record hshows, hdecode _ hfold⟩

end Json

open Json (Node Reads ReadsFields)

/-! ## Types and words -/

theorem JvmType.ofText_sourceName {t : JvmType} (h : t.IsSource) : ofText t.sourceName = .ok t := by
  rw [ofText, h.ofSourceName_sourceName]

/-- **A type is read from its name in source.** -/
theorem JvmType.reads_toJson {t : JvmType} (h : t.IsSource) : Reads ofNode t.toJson t := by
  obtain ⟨node, hshows, hnode⟩ := Reads.string t.sourceName
  refine ⟨node, hshows, ?_⟩
  rw [ofNode, hnode]
  exact ofText_sourceName h

theorem JvmType.ofJson_toJson {t : JvmType} (h : t.IsSource) : ofJson t.toJson = .ok t :=
  ofText_sourceName h

theorem Visibility.reads_keyword (v : Visibility) : Reads ofNode (.str v.keyword) v :=
  .variant (by cases v <;> rfl)

theorem ContractKind.reads_word (k : ContractKind) : Reads ofNode (.str k.word) k :=
  .variant (by cases k <;> rfl)

/-! ## Methods -/

/-- The types of a method, as some source texts name them. -/
structure Method.IsSpelled (m : Method) : Prop where
  params : ∀ t ∈ m.signature.params, t.IsSource
  result : m.signature.result.IsSource

/-- **A signature is put together from its fields.** -/
theorem Signature.ofEntries_jsonFields {s : Signature} (hparams : ∀ t ∈ s.params, t.IsSource)
    (hresult : s.result.IsSource) : ofEntries s.jsonFields = .ok s := by
  have hlist : (s.params.map JvmType.toJson).mapM JvmType.ofJson = .ok s.params :=
    mapM_of_forall₂ (List.forall₂_map_left_iff.2 (List.forall₂_same.2 fun t ht =>
      JvmType.ofJson_toJson (hparams t ht)))
  simp [ofEntries, jsonFields, Partial.add, Json.once, Json.required, Json.asString, Json.asList,
    hlist, JvmType.ofJson_toJson hresult, bind, Except.bind, pure, Except.pure]

/-- **The fields that a method always has**: those of its signature are kept, last one first. -/
theorem Method.readsFields_own (m : Method) {depth : Nat} (hdepth : 1 < depth) :
    ReadsFields (Partial.add depth)
      (m.signature.jsonFields ++ [("visibility", .str m.visibility.keyword),
        ("final", .bool m.isFinal), ("static", .bool m.isStatic),
        ("throws", .arr (m.exceptions.map Json.str))])
      {} ⟨some m.visibility, some m.isFinal, some m.isStatic, some m.exceptions, none,
        m.signature.jsonFields.reverse⟩ := by
  obtain ⟨name, hname, hnameValue⟩ := Reads.asValue_text depth m.signature.name
  obtain ⟨params, hparams, hparamsValue⟩ :=
    Reads.asValue_texts (m.signature.params.map JvmType.sourceName) hdepth
  obtain ⟨result, hresult, hresultValue⟩ :=
    Reads.asValue_text depth m.signature.result.sourceName
  obtain ⟨visibility, hvisibility, hvisibilityValue⟩ := m.visibility.reads_keyword
  obtain ⟨final, hfinal, hfinalValue⟩ := Reads.bool m.isFinal
  obtain ⟨static, hstatic, hstaticValue⟩ := Reads.bool m.isStatic
  obtain ⟨throws, hthrows, hthrowsValue⟩ := Reads.strings m.exceptions
  have htypes : (m.signature.params.map JvmType.sourceName).map Json.str =
      m.signature.params.map JvmType.toJson := List.map_map
  rw [htypes] at hparams hparamsValue
  refine ⟨[("name", .str m.signature.name, name),
    ("params", .arr (m.signature.params.map JvmType.toJson), params),
    ("returns", m.signature.result.toJson, result),
    ("visibility", .str m.visibility.keyword, visibility), ("final", .bool m.isFinal, final),
    ("static", .bool m.isStatic, static), ("throws", .arr (m.exceptions.map .str), throws)],
    rfl, ?_, ?_⟩
  · simp only [List.forall_mem_cons]
    exact ⟨hname, hparams, hresult, hvisibility, hfinal, hstatic, hthrows, List.forall_mem_nil _⟩
  · simp [Partial.add, Json.usedText_pieces, Json.once, hnameValue, hparamsValue, hresultValue,
      hvisibilityValue, hfinalValue, hstaticValue, hthrowsValue, Signature.jsonFields,
      JvmType.toJson, bind, Except.bind, pure, Except.pure]

/-- **The field that it may have**, if it was not met before. -/
theorem Method.readsFields_declaredIn (owner : Option String) (depth : Nat) {p : Partial}
    (hp : p.declaredIn = none) :
    ReadsFields (Partial.add depth) (owner.toList.map fun owner => ("declaredIn", .str owner))
      p { p with declaredIn := owner.map some } := by
  cases owner with
  | none => exact ⟨[], rfl, List.forall_mem_nil _, by simp [← hp, pure, Except.pure]⟩
  | some owner =>
    obtain ⟨node, hshows, hnode⟩ := Reads.optional owner
    refine ⟨[("declaredIn", .str owner, node)], rfl, List.forall_mem_singleton.2 hshows, ?_⟩
    simp [Partial.add, Json.usedText_pieces, Json.once, hp, hnode, bind, Except.bind, pure,
      Except.pure]

/-- **A method is read from its fields**, those of its signature among them. -/
theorem Method.reads_toJson {m : Method} (h : m.IsSpelled) (depth : Nat) (hdepth : 2 < depth) :
    Reads (ofNode depth) m.toJson m := by
  have hinner : 1 < depth - 1 := by omega
  refine .record ((m.readsFields_own hinner).append
    (readsFields_declaredIn m.declaredIn (depth - 1) rfl)) fun entries hfold => ?_
  have howner : (m.declaredIn.map some).getD none = m.declaredIn := by
    cases m.declaredIn <;> rfl
  simp [ofNode, hfold, Signature.ofEntries_jsonFields h.params h.result, howner,
    Json.Ending.check, bind, Except.bind, pure, Except.pure]

/-! ## Contracts -/

/-- The types of a contract, as some source texts name them. -/
structure Contract.IsSpelled (c : Contract) : Prop where
  methods : ∀ m ∈ c.methods, m.IsSpelled
  constructors : ∀ params ∈ c.constructors, ∀ t ∈ params, t.IsSource

/-- **A contract is read from its fields.** -/
theorem Contract.reads_toJson {c : Contract} (h : c.IsSpelled) : Reads ofNode c.toJson c := by
  obtain ⟨name, hname, hnameValue⟩ := Reads.string c.name
  obtain ⟨kind, hkind, hkindValue⟩ := c.kind.reads_word
  obtain ⟨visibility, hvisibility, hvisibilityValue⟩ := c.visibility.reads_keyword
  obtain ⟨final, hfinal, hfinalValue⟩ := Reads.bool c.isFinal
  obtain ⟨abstract, habstract, habstractValue⟩ := Reads.bool c.isAbstract
  obtain ⟨methods, hmethods, hmethodsValue⟩ := Reads.list fun m hm =>
    Method.reads_toJson (h.methods m hm) Contract.Partial.methodDepth (by decide)
  obtain ⟨constructors, hconstructors, hconstructorsValue⟩ := Reads.list fun params hparams =>
    Reads.list fun t ht => JvmType.reads_toJson (h.constructors params hparams t ht)
  have hfields : ReadsFields Partial.add [("name", .str c.name), ("kind", .str c.kind.word),
      ("visibility", .str c.visibility.keyword), ("final", .bool c.isFinal),
      ("abstract", .bool c.isAbstract), ("methods", .arr (c.methods.map Method.toJson)),
      ("constructors", .arr (c.constructors.map fun params => .arr (params.map JvmType.toJson)))]
      {} ⟨some c.name, some c.kind, some c.visibility, some c.isFinal, some c.isAbstract,
        some c.methods, some c.constructors⟩ := by
    refine ⟨[("name", .str c.name, name), ("kind", .str c.kind.word, kind),
      ("visibility", .str c.visibility.keyword, visibility), ("final", .bool c.isFinal, final),
      ("abstract", .bool c.isAbstract, abstract),
      ("methods", .arr (c.methods.map Method.toJson), methods),
      ("constructors", .arr (c.constructors.map fun params => .arr (params.map JvmType.toJson)),
        constructors)], rfl, ?_, ?_⟩
    · simp only [List.forall_mem_cons]
      exact ⟨hname, hkind, hvisibility, hfinal, habstract, hmethods, hconstructors,
        List.forall_mem_nil _⟩
    · simp [Partial.add, Partial.set, Json.usedText_pieces, Json.once, hnameValue, hkindValue,
        hvisibilityValue, hfinalValue, habstractValue, hmethodsValue, hconstructorsValue, bind,
        Except.bind, pure, Except.pure]
  refine .record hfields fun entries hfold => ?_
  simp [ofNode, hfold, Partial.finish, Json.required, Json.Ending.check, bind, Except.bind, pure,
    Except.pure]

/-! ## Surfaces -/

namespace Surface

variable {s : Surface}

/-- **The types of a surface, as some source texts name them.** -/
def IsSpelled (s : Surface) : Prop :=
  ∀ c ∈ s.contracts, c.IsSpelled

theorem reads_toJson (h : s.IsSpelled) : Reads ofNode s.toJson s := by
  obtain ⟨node, hshows, hnode⟩ := Reads.list fun c hc => Contract.reads_toJson (h c hc)
  refine ⟨node, hshows, ?_⟩
  rw [ofNode, hnode]
  rfl

/-- **A surface is read back from its JSON**, on one line or on several, if some source texts name
its types. -/
theorem ofJsonText_toJson (h : s.IsSpelled) :
    ofJsonText s.toJson.compact = .ok s ∧ ofJsonText s.toJson.pretty = .ok s := by
  obtain ⟨node, hshows, hnode⟩ := reads_toJson h
  exact ⟨Json.readText_compact hshows hnode, Json.readText_pretty hshows hnode⟩

/-- A surface with texts that no name is, and with all that a contract and a method may have. -/
def awkward : Surface :=
  ⟨[{ name := "say \"\\\n\x01 é😀\"", kind := .baseClass, visibility := .packageAccess,
      isFinal := false, isAbstract := true,
      methods := [
        { signature := ⟨"", [.array (.array (.primitive .long)), .object "demo.Sum"], .void⟩,
          visibility := .protectedAccess, isFinal := true, isStatic := false,
          exceptions := ["\t", ""], declaredIn := some "\x0c" },
        .ofSignature ⟨"close", [], .object "$"⟩],
      constructors := [[], [.primitive .int]] },
    .ofInterface "demo.Adder"]⟩

theorem ofJsonText_toJson_awkward : awkward.IsSpelled ∧
    ofJsonText awkward.toJson.compact = .ok awkward ∧
    ofJsonText awkward.toJson.pretty = .ok awkward := by
  have hlongs : JvmType.IsSource (.array (.array (.primitive .long))) :=
    ⟨" long[] []", by decide +kernel⟩
  have hsum : JvmType.IsSource (.object "demo.Sum") := ⟨"demo.Sum", by decide +kernel⟩
  have hdollar : JvmType.IsSource (.object "$") := ⟨"$", by decide +kernel⟩
  have hint : JvmType.IsSource (.primitive .int) := ⟨"int", by decide +kernel⟩
  have hvoid : JvmType.IsSource .void := ⟨"void", by decide +kernel⟩
  have hspelled : awkward.IsSpelled := by
    simp only [IsSpelled, awkward, List.forall_mem_cons]
    refine ⟨⟨?_, ?_⟩, ⟨List.forall_mem_nil _, List.forall_mem_nil _⟩, List.forall_mem_nil _⟩
    · simp only [List.forall_mem_cons]
      refine ⟨⟨?_, hvoid⟩, ⟨List.forall_mem_nil _, hdollar⟩, List.forall_mem_nil _⟩
      simp only [List.forall_mem_cons]
      exact ⟨hlongs, hsum, List.forall_mem_nil _⟩
    · simp only [List.forall_mem_cons]
      exact ⟨List.forall_mem_nil _, ⟨hint, List.forall_mem_nil _⟩, List.forall_mem_nil _⟩
  exact ⟨hspelled, ofJsonText_toJson hspelled⟩

end Surface

end ProxyForge
