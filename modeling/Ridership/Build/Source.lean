import Ridership.Build.Merging
import Ridership.Track.Document
import Ridership.Track.Listing
import Ridership.Way.Table

/-!
# Sources of popularity

A store is filled from a folder of tracks, or from a table of way popularities that is joined to
the edges by the ways they belong to.
-/

namespace Ridership.Build

inductive Source
  | tracks (folder : String) (matcher : Snap.Matcher) (policy : FailurePolicy)
  | ways (file : String) (edges : Way.EdgeMap)

/-- What a build leaves to the machine. -/
structure Scheduling where
  /-- Why the workers cannot be started, if so. -/
  noWorkers : Option String := none
  /-- The order in which the results of tracks arrive, given the tracks in the order of their
  paths. -/
  order : List String → List String := id
  /-- The order in which the counts in the tally of a track are visited. -/
  visit : String → Tally → Counts := fun _ t => t.toList

namespace Source

def ofTracks (folder : String) (locate : Snap.Locator) (c : Config) : Except Failure Source :=
  c.checked.map fun c => .tracks folder ⟨locate, c.maxSnapDistance⟩ c.failurePolicy

def name : Source → String
  | .tracks .. => "edge-tally"
  | .ways .. => "way-popularity"

def resultOf (sched : Scheduling) (d : Disk) (matcher : Snap.Matcher) (path : String) : Result :=
  (path, (Track.load d path).map fun track => sched.visit path (matcher.tally track))

def fillFromTracks (sched : Scheduling) (d : Disk) (folder : String) (matcher : Snap.Matcher)
    (policy : FailurePolicy) (store : Store) : List Event × Except Halt (Store × Summary) :=
  match Track.files d folder with
  | .error f => ([], .error (.failed f))
  | .ok files =>
    match sched.noWorkers with
    | some reason => ([], .error (.failed (.configuration (.workers reason))))
    | none => mergeAll policy store ((sched.order files).map (resultOf sched d matcher))

/-- The popularity that a table has for an edge, zero without one. -/
def popularityOf (edges : Way.EdgeMap) (table : Way.Table) (e : EdgeId) : UInt32 :=
  match edges[e]? with
  | none => 0
  | some way => table.getD way 0

def joinEdge (edges : Way.EdgeMap) (table : Way.Table) (acc : Store × Summary) (e : EdgeId) :
    Except Misuse (Store × Summary) :=
  let n := popularityOf edges table e
  if n = 0 then .ok acc
  else
    (acc.1.set e n).map fun store =>
      (store, { acc.2 with increments := acc.2.increments + n.toNat, ridden := acc.2.ridden + 1 })

/-- Gives every edge the popularity of its way. The number of edges is taken as a 32-bit number.
-/
def joinWays (edges : Way.EdgeMap) (table : Way.Table) (store : Store) :
    Except Misuse (Store × Summary) :=
  (List.range (store.edgeCount % UInt32.size)).foldlM
    (fun acc e => joinEdge edges table acc (UInt32.ofNat e)) (store, { total := 1, merged := 1 })

def fillFromWays (d : Disk) (file : String) (edges : Way.EdgeMap) (store : Store) :
    List Event × Except Halt (Store × Summary) :=
  match Way.Table.load d file with
  | .error f => ([], .error (.failed f))
  | .ok table =>
    match joinWays edges table store with
    | .error m => ([], .error (.misused m))
    | .ok (store, summary) => ([.finished summary], .ok (store, summary))

def fill (sched : Scheduling) (d : Disk) (store : Store) : Source →
    List Event × Except Halt (Store × Summary)
  | .tracks folder matcher policy => fillFromTracks sched d folder matcher policy store
  | .ways file edges => fillFromWays d file edges store

end Source

end Ridership.Build
