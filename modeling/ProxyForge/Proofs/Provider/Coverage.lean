import ProxyForge.Proofs.Name
import ProxyForge.Proofs.Provider.History
import ProxyForge.Proofs.Proxy.Acceptance
/-!
# What the check of a request covers

A request is checked before a class is named and generated, and generation checks its surface again:
it counts the bases, looks for the constructor, and reads the name. Whatever passes the first check
passes the second, under any name that is one (`generate_ne_invalidSurface`). The name that a
provider chooses is one, in the package that the contracts agree on (`isBinary_nameFor`,
`package_nameFor`). So a request is never refused by generation because of its surface, when a
number is drawn already (`Location.ofRequest_covers`).
-/

namespace ProxyForge

open Outcome

namespace Provider

open Proxy (Artifact Blueprint Generator SurfaceDefect)

variable {s : Surface} {params : List JvmType} {location : Location}

/-! ## The check -/

namespace Location

/-- **What is left of the bases**: none and no parameters, or one with the constructor. -/
theorem bases_of_ofRequest (h : ofRequest s params = .ok location) :
    (s.bases = [] ∧ params = []) ∨
      ∃ base, s.bases = [base] ∧ (base.findConstructor params).isSome := by
  obtain ⟨_, -, hrest⟩ := bind_eq_ok.1 h
  obtain ⟨_, hbases, -⟩ := bind_eq_ok.1 hrest
  unfold verifyBases at hbases
  split at hbases
  · next hnone =>
    split at hbases
    · next hempty => exact .inl ⟨hnone, List.isEmpty_iff.1 hempty⟩
    · cases hbases
  · next base hone =>
    unfold verifyBase at hbases
    split at hbases
    · cases hbases
    · split at hbases
      · cases hbases
      · split at hbases
        · cases hbases
        · next hfound => exact .inr ⟨base, hone, by rw [hfound]; rfl⟩
  · cases hbases

/-- **What the contracts that are not public agree on**: no package if there are none, and else
that of each of them. -/
theorem package_of_ofRequest (h : ofRequest s params = .ok location) :
    (confined s = [] ∧ location.package = none) ∨
      ∃ c ∈ confined s, location.package = some c.package ∧
        ∀ c' ∈ confined s, c'.package = c.package := by
  obtain ⟨_, -, hrest⟩ := bind_eq_ok.1 h
  obtain ⟨_, -, hagreed⟩ := bind_eq_ok.1 hrest
  cases hconfined : confined s with
  | nil =>
    rw [hconfined] at hagreed
    cases hagreed
    exact .inl ⟨rfl, rfl⟩
  | cons first rest =>
    rw [hconfined, agreed] at hagreed
    split at hagreed
    · cases hagreed
    · next hnone =>
      cases hagreed
      refine .inr ⟨first, List.mem_cons_self, rfl, List.forall_mem_cons.2 ⟨rfl, fun c hc => ?_⟩⟩
      simpa using List.find?_eq_none.1 hnone c hc

end Location

/-! ## Generation -/

/-- With the constructor, or without a base, there is a superclass. -/
theorem exists_superName (h : Location.ofRequest s params = .ok location) (name : String)
    (access : UInt16) :
    ∃ superName, (⟨name, s, access, params⟩ : Blueprint).superName s.base = .ok superName := by
  rcases Location.bases_of_ofRequest h with ⟨hbases, rfl⟩ | ⟨base, hbases, hfound⟩
  · refine ⟨Code.objectClass, ?_⟩
    simp [Blueprint.superName, Surface.base, hbases]
  · obtain ⟨constructor, hconstructor⟩ := Option.isSome_iff_exists.1 hfound
    refine ⟨base.internalName, ?_⟩
    simp [Blueprint.superName, Surface.base, hbases, hconstructor]

/-- **Generation finds nothing wrong with a surface that passed the check**, if the class has a
name. -/
theorem generate_ne_invalidSurface (h : Location.ofRequest s params = .ok location) (g : Generator)
    {name : String} (hname : Name.isBinary name) (access : UInt16) (defect : SurfaceDefect) :
    Proxy.generate g ⟨name, s, access, params⟩ ≠ .error (.invalidSurface defect) := by
  intro hgenerate
  rcases bind_eq_error.1 hgenerate with houtline | ⟨o, -, hrest⟩
  · have hsingle : s.bases.length ≤ 1 := by
      rcases Location.bases_of_ofRequest h with ⟨hbases, -⟩ | ⟨base, hbases, -⟩ <;> simp [hbases]
    unfold Blueprint.outline at houtline
    rw [if_neg (by simp [hname])] at houtline
    rcases bind_eq_error.1 houtline with hplan | ⟨plan, hplan, hlast⟩
    · rcases Proxy.Plan.ofSurface_eq g.hash hsingle with ⟨hok, -, -⟩ | ⟨e, he, hrefusal⟩
      · cases hplan.symm.trans hok
      · cases hplan.symm.trans he
        cases hrefusal
    · obtain ⟨superName, hsuper⟩ := exists_superName h name access
      rw [(Proxy.Plan.eq_of_ofSurface hplan).1] at hlast
      rcases bind_eq_error.1 hlast with hnone | ⟨superName', -, hresult⟩
      · cases hnone.symm.trans hsuper
      · cases hresult
  · rcases bind_eq_error.1 hrest with hemit | ⟨file, -, hresult⟩
    · unfold Blueprint.emit at hemit
      split at hemit <;> cases hemit
    · cases hresult

/-! ## Names -/

variable {settings : Settings}

/-- **The name that is chosen is one**, whatever the number. -/
theorem isBinary_nameFor (h : Location.ofRequest s params = .ok location)
    (hcontracts : ∀ c ∈ s.contracts, Name.isBinary c.name)
    (hpackage : settings.package = "" ∨ Name.isBinary settings.package)
    (hstem : Name.isIdentifier settings.stem.toList) (number : UInt64) :
    Name.isBinary (settings.nameFor location number) := by
  refine Name.isBinary_qualify ?_ (Name.isIdentifier_append_number hstem number)
  rcases Location.package_of_ofRequest h with ⟨-, hnone⟩ | ⟨c, hc, hsome, -⟩
  · rw [hnone]
    exact hpackage
  · rw [hsome]
    exact Name.isBinary_package (hcontracts c (List.mem_filter.1 hc).1)

/-- **It is in the package of every contract that is not public.** -/
theorem package_nameFor (h : Location.ofRequest s params = .ok location)
    (hstem : Name.isIdentifier settings.stem.toList) (number : UInt64) {c : Contract}
    (hc : c ∈ s.contracts) (hconfined : ¬ c.isPublic) :
    Name.package (settings.nameFor location number) = c.package := by
  have hmem : c ∈ Location.confined s := List.mem_filter.2 ⟨hc, by simp [hconfined]⟩
  rw [Settings.nameFor, Name.package_qualify _
    (Name.dot_notMem_of_isIdentifier (Name.isIdentifier_append_number hstem number))]
  rcases Location.package_of_ofRequest h with ⟨hnone, -⟩ | ⟨first, -, hsome, hall⟩
  · rw [hnone] at hmem
    cases hmem
  · rw [hsome, hall c hmem]
    rfl

/-! ## Results of computations -/

section Yields

variable {α β σ : Type} {m : Type → Type} [Monad m] [LawfulMonad m] {p : α → Prop} {q : β → Prop}

/-- **Every result of a computation** is as said: it is a computation of such results. -/
def Yields (p : α → Prop) (x : m α) : Prop :=
  ∃ y : m {a // p a}, Subtype.val <$> y = x

namespace Yields

theorem pure {a : α} (h : p a) : Yields p (Pure.pure a : m α) :=
  ⟨Pure.pure ⟨a, h⟩, map_pure ..⟩

/-- What is always so. -/
theorem of_forall (h : ∀ a, p a) (x : m α) : Yields p x :=
  ⟨(fun a => ⟨a, h a⟩) <$> x, by simp⟩

theorem bind {x : m α} {f : α → m β} (hx : Yields p x) (hf : ∀ a, p a → Yields q (f a)) :
    Yields q (x >>= f) := by
  obtain ⟨y, rfl⟩ := hx
  choose next hnext using hf
  refine ⟨y >>= fun a => next a.1 a.2, ?_⟩
  simp [map_bind, hnext]

theorem imp {p' : α → Prop} {x : m α} (hx : Yields p x) (h : ∀ a, p a → p' a) : Yields p' x := by
  obtain ⟨y, rfl⟩ := hx
  exact ⟨(fun a => ⟨a.1, h a.1 a.2⟩) <$> y, by simp⟩

/-- A next step of which nothing is needed to know the first. -/
theorem after {f : α → m β} (x : m α) (hf : ∀ a, Yields q (f a)) : Yields q (x >>= f) :=
  bind (of_forall (fun _ => trivial) x) fun a (_ : True) => hf a

theorem lift {x : m α} (hx : Yields p x) : Yields p (StateT.lift x : StateT σ m α) := by
  obtain ⟨y, rfl⟩ := hx
  refine ⟨StateT.lift y, ?_⟩
  ext
  simp

end Yields

/-- What a cache returns is an artifact, or was created for it. -/
theorem Cache.yields_getOrCreate {κ ε : Type} [DecidableEq κ] {p : Except ε α → Prop}
    (hok : ∀ a, p (.ok a)) (live : Loader → Bool) (loader : Loader) (key : κ)
    {create : StateT (Cache κ α) m (Except ε α)} (hcreate : Yields p create) :
    Yields p (Cache.getOrCreate live loader key create) := by
  refine .after _ fun c => ?_
  refine .after _ fun _ => ?_
  split
  · exact .pure (hok _)
  · refine hcreate.bind fun result hresult => ?_
    exact .after _ fun _ => .pure hresult

end Yields

/-! ## Requests -/

/-- **Not refused by generation because of its surface.** -/
def Covered (result : Except RequestError Artifact) : Prop :=
  ∀ defect, result ≠ .error (.generation (.invalidSurface defect))

variable {m : Type → Type} [Monad m] [LawfulMonad m]

/-- What a factory makes of a blueprint with a name, from a surface that passed the check. -/
theorem covered_standard (h : Location.ofRequest s params = .ok location) (g : Generator)
    (dump : DumpSettings) (host : Host m) (loader : Loader) {name : String}
    (hname : Name.isBinary name) (access : UInt16) :
    Yields Covered (Factory.standard g dump host loader ⟨name, s, access, params⟩) := by
  unfold Factory.standard
  split
  · next e he =>
    refine .pure fun defect heq => ?_
    cases heq
    exact generate_ne_invalidSurface h g hname access defect he
  · dsimp only
    split
    -- the file is written first, or not, and then the loader is asked
    on_goal 1 => refine .after _ fun _ => ?_
    all_goals
      refine .after _ fun defined => ?_
      split <;> exact .pure fun defect heq => by cases heq

/-- **What passes the check is never refused by generation because of its surface.** A class with
any name that is one, for the access flags that the check gives, has nothing wrong with its surface.
If contracts and settings are well named, the name that is chosen is one, in the package of each
contract that is not public, and so a request is never refused in this way. -/
theorem Location.ofRequest_covers (h : ofRequest s params = .ok location) :
    (∀ (g : Generator) (name : String), Name.isBinary name → ∀ defect,
      Proxy.generate g ⟨name, s, location.access, params⟩ ≠ .error (.invalidSurface defect)) ∧
    ∀ settings : Settings, (∀ c ∈ s.contracts, Name.isBinary c.name) →
      (settings.package = "" ∨ Name.isBinary settings.package) →
      Name.isIdentifier settings.stem.toList →
      (∀ number, Name.isBinary (settings.nameFor location number) ∧
        ∀ c ∈ s.contracts, ¬ c.isPublic →
          Name.package (settings.nameFor location number) = c.package) ∧
      ∀ {m : Type → Type} [Monad m] [LawfulMonad m] (host : Host m) (live : Loader → Bool)
        (loader : Loader),
        Yields Covered (request settings
          (Factory.standard settings.generator settings.dump host) live loader ⟨s, params⟩) := by
  refine ⟨fun g name hname defect => generate_ne_invalidSurface h g hname location.access defect,
    fun settings hcontracts hpackage hstem => ?_⟩
  have hname := isBinary_nameFor h hcontracts hpackage hstem
  refine ⟨fun number => ⟨hname number, fun c => package_nameFor h hstem number⟩, ?_⟩
  intro m _ _ host live loader
  rw [request_eq_getOrCreate live loader h]
  refine Cache.yields_getOrCreate (fun _ _ heq => by cases heq) live loader _ (.lift ?_)
  refine .after _ fun number => .lift ?_
  exact covered_standard h settings.generator settings.dump host loader (hname number) _

/-- A public interface, and a class that can be used from its package only. -/
def confinedSurface : Surface :=
  ⟨[.ofInterface "demo.Greeter",
    { Contract.ofClass "demo.inner.Base" with
      visibility := .packageAccess, constructors := [[], [.primitive .int]] }]⟩

/-- Where its class goes. -/
def confinedLocation : Location := ⟨some "demo.inner", Access.isFinal⟩

/-- The usual settings name its class in the package of its base. -/
theorem ofRequest_covers_confinedSurface :
    Location.ofRequest confinedSurface [.primitive .int] = .ok confinedLocation ∧
    (∀ defect, Proxy.generate .standard ⟨"demo.inner.P", confinedSurface, confinedLocation.access,
      [.primitive .int]⟩ ≠ .error (.invalidSurface defect)) ∧
    (∀ c ∈ confinedSurface.contracts, Name.isBinary c.name) ∧
    Name.isBinary Settings.standard.package ∧ Name.isIdentifier Settings.standard.stem.toList ∧
    (∀ number, Name.isBinary (Settings.standard.nameFor confinedLocation number) ∧
      ∀ c ∈ confinedSurface.contracts, ¬ c.isPublic →
        Name.package (Settings.standard.nameFor confinedLocation number) = c.package) ∧
    ∀ (host : Host Id) (live : Loader → Bool) (loader : Loader),
      Yields Covered (request .standard (Factory.standard .standard .off host) live loader
        ⟨confinedSurface, [.primitive .int]⟩) := by
  have hlocation : Location.ofRequest confinedSurface [.primitive .int] = .ok confinedLocation := by
    have hpackage : Name.package "demo.inner.Base" = "demo.inner" := by decide
    simp [Location.ofRequest, Location.verifyContracts, Location.verifyBases, Location.verifyBase,
      Location.firstRepeated, Location.confined, Location.agreed, Location.contractLimit,
      confinedSurface, confinedLocation, Surface.names, Surface.bases, Contract.ofInterface,
      Contract.ofClass, Contract.isInterface, Contract.isPublic, Contract.findConstructor,
      Contract.package, hpackage, bind, Except.bind]
  have hname : Name.isBinary "demo.inner.P" := by decide
  have hcontracts : ∀ c ∈ confinedSurface.contracts, Name.isBinary c.name := by decide
  have hpackage : Name.isBinary Settings.standard.package := by decide
  have hstem : Name.isIdentifier Settings.standard.stem.toList := by decide
  obtain ⟨hgenerate, hsettings⟩ := Location.ofRequest_covers hlocation
  obtain ⟨hnames, hrequest⟩ := hsettings Settings.standard hcontracts (.inr hpackage) hstem
  exact ⟨hlocation, hgenerate .standard "demo.inner.P" hname, hcontracts, hpackage, hstem, hnames,
    hrequest⟩

end Provider

end ProxyForge
