import CertKeeper.Cluster.World
import CertKeeper.Manager.Sync

/-!
# Rehearsals

A rehearsal carries a pass out without a rotation. Its stages are written down, and
answered with one and the same authority. A stage may be made to fail once.
-/

namespace CertKeeper

/-- The kinds of stages. -/
inductive StageKind where
  | signer
  | bundle
  | leaf
  deriving DecidableEq

/-- The kind of a stage. -/
def Stage.kind : Stage → StageKind
  | signer _ => .signer
  | bundle _ _ => .bundle
  | leaf _ _ _ => .leaf

/-- A stage that was asked for, with the number of objects in the cache that it would have
looked at. -/
structure StageRecord where
  stage : Stage
  cached : Nat

/-- A rehearsal in a world. -/
structure Rehearsal where
  authority : Authority
  failure : Option (StageKind × Error)
  world : World
  stages : List StageRecord := []

namespace Rehearsal

/-- The number of objects in the cache that a stage looks at. -/
def cachedCount (w : World) : Stage → Nat
  | .signer request => w.cachedCount .secret request.ref.ns
  | .bundle ref _ => w.cachedCount .configMap ref.ns
  | .leaf request _ _ => w.cachedCount .secret request.ref.ns

/-- The answer to a stage that does not fail. -/
def answer (authority : Authority) : (s : Stage) → s.Answer
  | .signer _ => authority
  | .bundle _ _ => [authority.trusted]
  | .leaf _ _ _ => ()

/-- Take one step of a pass. -/
def handle : (s : Step) → Rehearsal → s.Answer × Rehearsal
  | .request r, x =>
    let (a, world) := World.handle r x.world
    (a, { x with world := world })
  | .stage s, x =>
    let x : Rehearsal := { x with stages := x.stages ++ [⟨s, cachedCount x.world s⟩] }
    match x.failure with
    | none => (.ok (answer x.authority s), x)
    | some (kind, e) =>
      if kind = s.kind then
        (.error (.error e), { x with failure := none })
      else
        (.ok (answer x.authority s), x)

/-- Rehearse a pass over a list of definitions. -/
def run (definitions : List Definition) (x : Rehearsal) : Except Stop Unit × Rehearsal :=
  Program.run handle (Manager.pass x.world.watched definitions).run x

end Rehearsal

end CertKeeper
