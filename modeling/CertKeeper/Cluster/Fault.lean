import CertKeeper.Cluster.Store

/-!
# Planned faults

A `Fault` is planned for one later call of a kind. When it strikes, another writer may
first store an object, and then the call may fail instead of being carried out.
-/

namespace CertKeeper

/-- The verbs of calls on the store. -/
inductive CallVerb where
  | get
  | create
  | update
  deriving DecidableEq

/-- What a fault is planned for. -/
inductive FaultTarget where
  | call (verb : CallVerb) (kind : Kind)
  | event
  deriving DecidableEq

/-- A fault of one later call, after `skip` other ones. -/
structure Fault where
  target : FaultTarget
  name : Option String
  skip : Nat
  error : Option Error
  object : Option (Sigma Object)

namespace Fault

/-- The fault is planned for such a call. -/
def matchesCall (f : Fault) (target : FaultTarget) (name : String) : Bool :=
  f.target = target && f.name.all (fun n => n = name)

/-- The fault that strikes a call, and the faults that are left. Each fault before it that
is planned for such a call has one call less to skip. -/
def strike (target : FaultTarget) (name : String) : List Fault → Option Fault × List Fault
  | [] => (none, [])
  | f :: rest =>
    if f.matchesCall target name then
      match f.skip with
      | 0 => (some f, rest)
      | skip + 1 =>
        let (struck, rest) := strike target name rest
        (struck, { f with skip := skip } :: rest)
    else
      let (struck, rest) := strike target name rest
      (struck, f :: rest)

end Fault

end CertKeeper
