import ProxyForge.Name
/-!
# Runtime bindings

The types of the runtime library that generated classes are linked against. All of them live in
one package:

* `Interceptor`, which is asked on every call:
  `Object intercept(Object, MemberDescriptor, Object[])`
* `MemberDescriptor`, which says what is called: `static of(Method, int)` and `int dispatchId()`
* `Dispatcher`, which each class implements: `Object dispatch(Object, MemberDescriptor, Object[])`
* `Generated`, the annotation that marks generated classes
-/

namespace ProxyForge

namespace Proxy

/-- Where the runtime library is. -/
structure Bindings where
  /-- The package, in internal form. -/
  package : String
  deriving DecidableEq, Repr

namespace Bindings

/-- The library in a package given by its binary name. -/
def ofPackage (package : String) : Bindings :=
  ⟨Name.toInternal package⟩

/-- The library in its usual place. -/
def standard : Bindings :=
  ofPackage "dev.interpose.runtime"

instance : Inhabited Bindings := ⟨standard⟩

/-- The internal name of a type of the library. -/
def qualify (b : Bindings) (simple : String) : String :=
  if b.package = "" then simple else b.package ++ "/" ++ simple

/-- The interceptor type. -/
def interceptor (b : Bindings) : String :=
  b.qualify "Interceptor"

/-- The type of member descriptors. -/
def memberDescriptor (b : Bindings) : String :=
  b.qualify "MemberDescriptor"

/-- The dispatcher interface. -/
def dispatcher (b : Bindings) : String :=
  b.qualify "Dispatcher"

/-- The descriptor of a class. -/
def classDescriptor (name : String) : String :=
  "L" ++ name ++ ";"

/-- The descriptor of the marker annotation. -/
def marker (b : Bindings) : String :=
  classDescriptor (b.qualify "Generated")

/-- The descriptor that `intercept` and `dispatch` share. -/
def callDescriptor (b : Bindings) : String :=
  "(Ljava/lang/Object;" ++ classDescriptor b.memberDescriptor ++
    "[Ljava/lang/Object;)Ljava/lang/Object;"

/-- The descriptor of the factory of member descriptors. -/
def factoryDescriptor (b : Bindings) : String :=
  "(Ljava/lang/reflect/Method;I)" ++ classDescriptor b.memberDescriptor

end Bindings

end Proxy

end ProxyForge
