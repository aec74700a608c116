import ProxyForge.Proofs.SourceName
import ProxyForge.Signature
/-!
# The keys of signatures

A key is a name with a descriptor behind it, and nothing between them. It tells signatures apart all
the same (`Signature.IsSource.key_inj`), as long as source texts name their types: no parenthesis
is in the descriptor of such a type, so the last one that opens ends the name; and no descriptor
goes on where another one ends, so parameters need nothing between them.
-/

namespace ProxyForge

namespace JvmType

variable {t : JvmType} {ts us : List JvmType} {rest after : List Char}

/-- **No parenthesis opens in the descriptor** of a type that is spelled out. -/
theorem Spelled.paren_notMem (h : t.Spelled) : '(' ∉ t.descriptorChars := by
  induction h with
  | @plain name t h =>
    cases t with
    | primitive p => cases p <;> decide
    | void => decide
    | object class' =>
      have hbinary := (isBinary_of_ofPlainName h).1
      rw [descriptorChars, Name.toList_toInternal]
      intro hmem
      rcases List.mem_append.1 hmem with hmem | hmem
      · rcases List.mem_cons.1 hmem with heq | hmem
        · cases heq
        · obtain ⟨c, hc, hparen⟩ := List.mem_map.1 hmem
          split at hparen
          · cases hparen
          · next hdot =>
            rw [hparen] at hc
            rcases Name.isIdentifierPart_of_mem hbinary hc with heq | hpart
            · cases heq
            · exact absurd hpart (by decide)
      · exact absurd hmem (by decide)
    | array element => exact absurd rfl ((ofPlainName_eq_ok h).2 element)
  | array _ _ ih =>
    rw [descriptorChars, List.mem_cons, not_or]
    exact ⟨by decide, ih⟩

theorem IsSource.paren_notMem (h : t.IsSource) : '(' ∉ t.descriptorChars := by
  obtain ⟨text, htext⟩ := h
  exact (spelled_ofReversed htext).paren_notMem

/-- **Descriptors of parameters are told apart**, up to the parenthesis behind them. A parameter may
be `void`. -/
theorem flatMap_descriptorChars_inj (hts : ∀ t ∈ ts, t.isReadable) (hus : ∀ u ∈ us, u.isReadable)
    (h : ts.flatMap descriptorChars ++ ')' :: rest = us.flatMap descriptorChars ++ ')' :: after) :
    ts = us ∧ rest = after := by
  -- a list that has ended is followed by a parenthesis, and no descriptor begins with one
  have hended : ∀ (t : JvmType) (chars : List Char) (rest : List Char),
      t.descriptorChars ++ chars ≠ ')' :: rest := by
    intro t chars rest heq
    obtain ⟨c, cs, hchars, hc⟩ := exists_descriptorChars t
    rw [hchars] at heq
    exact hc (List.cons.inj heq).1
  induction ts generalizing us with
  | nil =>
    cases us with
    | nil => exact ⟨rfl, (List.cons.inj h).2⟩
    | cons u us =>
      rw [List.flatMap_cons, List.append_assoc] at h
      exact absurd h.symm (hended u _ _)
  | cons t ts ih =>
    cases us with
    | nil =>
      rw [List.flatMap_cons, List.append_assoc] at h
      exact absurd h (hended t _ _)
    | cons u us =>
      rw [List.flatMap_cons, List.append_assoc, List.flatMap_cons, List.append_assoc] at h
      have ht := takes_descriptorChars (hts t List.mem_cons_self)
        (ts.flatMap descriptorChars ++ ')' :: rest)
      rw [h] at ht
      obtain ⟨rfl, hrest⟩ := ht.unique (takes_descriptorChars (hus u List.mem_cons_self) _)
      obtain ⟨rfl, rfl⟩ := ih (fun t' ht' => hts t' (List.mem_cons_of_mem _ ht'))
        (fun u' hu' => hus u' (List.mem_cons_of_mem _ hu')) hrest
      exact ⟨rfl, rfl⟩

end JvmType

namespace Signature

open JvmType

variable {s t : Signature}

/-- **A signature of types that source texts name**, with any name. Parameters may be `void`. -/
structure IsSource (s : Signature) : Prop where
  params : ∀ t ∈ s.params, t.IsSource
  result : s.result.IsSource

theorem toList_key (s : Signature) :
    s.key.toList = s.name.toList ++ methodDescriptorChars s.params s.result := by
  rw [key, String.toList_append, descriptor, toList_methodDescriptor]

/-- What stands behind the parenthesis that opens. -/
theorem IsSource.paren_notMem (h : s.IsSource) :
    '(' ∉ s.params.flatMap descriptorChars ++ ')' :: s.result.descriptorChars := by
  intro hmem
  rcases List.mem_append.1 hmem with hmem | hmem
  · obtain ⟨t, ht, hparen⟩ := List.mem_flatMap.1 hmem
    exact (h.params t ht).paren_notMem hparen
  · rcases List.mem_cons.1 hmem with heq | hmem
    · cases heq
    · exact h.result.paren_notMem hmem

/-- **The last separator of a text** is where it is. -/
theorem append_cons_inj {α : Type} {xs ys zs ws : List α} {a : α} (hys : a ∉ ys) (hws : a ∉ ws)
    (h : xs ++ a :: ys = zs ++ a :: ws) : xs = zs ∧ ys = ws := by
  rcases List.append_eq_append_iff.1 h with ⟨mid, rfl, hback⟩ | ⟨mid, rfl, hback⟩
  · cases mid with
    | nil => exact ⟨(List.append_nil _).symm, (List.cons.inj hback).2⟩
    | cons b mid =>
      rw [(List.cons.inj hback).2] at hys
      exact absurd (List.mem_append_right _ List.mem_cons_self) hys
  · cases mid with
    | nil => exact ⟨List.append_nil _, (List.cons.inj hback).2.symm⟩
    | cons b mid =>
      rw [(List.cons.inj hback).2] at hws
      exact absurd (List.mem_append_right _ List.mem_cons_self) hws

/-- **Keys tell signatures apart**, whatever is in their names. -/
theorem IsSource.key_inj (hs : s.IsSource) (ht : t.IsSource) : s.key = t.key ↔ s = t := by
  refine ⟨fun h => ?_, fun h => congrArg key h⟩
  have hchars := congrArg String.toList h
  rw [toList_key, toList_key] at hchars
  obtain ⟨hname, hbehind⟩ := append_cons_inj hs.paren_notMem ht.paren_notMem hchars
  obtain ⟨hparams, hresult⟩ := flatMap_descriptorChars_inj
    (fun u hu => (hs.params u hu).isReadable) (fun u hu => (ht.params u hu).isReadable) hbehind
  have hlast := takes_descriptorChars hs.result.isReadable []
  rw [hresult] at hlast
  obtain ⟨hresult, -⟩ := hlast.unique (takes_descriptorChars ht.result.isReadable [])
  cases s
  cases t
  cases String.toList_injective hname
  cases hparams
  cases hresult
  rfl

/-- Among signatures, one is found by its key. -/
theorem IsSource.key_mem_map {ss : List Signature} (ht : t.IsSource) (hss : ∀ s ∈ ss, s.IsSource) :
    t.key ∈ ss.map key ↔ t ∈ ss := by
  refine ⟨fun h => ?_, fun h => List.mem_map_of_mem h⟩
  obtain ⟨s, hs, heq⟩ := List.mem_map.1 h
  exact ((hss s hs).key_inj ht).1 heq ▸ hs

end Signature

end ProxyForge
