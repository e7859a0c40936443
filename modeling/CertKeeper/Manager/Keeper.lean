import CertKeeper.Cluster.World
import CertKeeper.Manager.Diagnostics
import CertKeeper.Manager.Sync

/-!
# The keeper

A keeper waits for its caches and then makes one pass after the other until it is told to
stop. `Keeper.run` makes a given number of passes and stops. The outcome of each pass goes
into the diagnostics, and the error of a pass does not end the keeper's work; `Page.of` is what a
reader of the diagnostics gets to see.
-/

namespace CertKeeper

/-- A keeper of the certificates of a cluster. -/
structure Keeper where
  world : World
  diagnostics : Diagnostics := {}

namespace Keeper

/-- Make a pass and record its outcome. A pass that leaves the calendar has none. -/
def pass (definitions : List Definition) (p : Keeper) : Except Stop Unit × Keeper :=
  let (result, world) := World.run (Manager.sync p.world.watched definitions) p.world
  let recorded (outcome : Except Error Unit) : Except Stop Unit × Keeper :=
    (.ok (), ⟨world, p.diagnostics.record world.clock definitions.length outcome⟩)
  match result with
  | .ok () => recorded (.ok ())
  | .error (.error e) => recorded (.error e)
  | .error .overflow => (.error .overflow, ⟨world, p.diagnostics⟩)

/-- Make a number of passes. -/
def passes (definitions : List Definition) : Nat → Keeper → Except Stop Unit × Keeper
  | 0, p => (.ok (), p)
  | n + 1, p =>
    match p.pass definitions with
    | (.ok (), p) => p.passes definitions n
    | stopped => stopped

/-- Wait for the caches of the namespaces, make a number of passes, and stop. A keeper
that is to make no pass has been told to stop before it began to wait. -/
def run (denied namespaces : List String) (definitions : List Definition) (count : Nat)
    (p : Keeper) : Except Stop Unit × Keeper :=
  match p.world.start denied (count == 0) namespaces with
  | (.error e, world) => (.error (.error e), { p with world := world })
  | (.ok _, world) => passes definitions count { p with world := world }

end Keeper

/-- What a page has to tell. -/
inductive PageBody where
  | word (text : String)
  | diagnostics (diagnostics : Diagnostics)
  | nothing

/-- A page with its status. -/
structure Page where
  status : Nat
  body : PageBody

/-- The page at a path. -/
def Page.of (d : Diagnostics) : String → Page
  | "/" => ⟨200, .diagnostics d⟩
  | "/health" => if d.healthy then ⟨200, .word "healthy"⟩ else ⟨503, .word "last sync failed"⟩
  | _ => ⟨404, .nothing⟩

end CertKeeper
