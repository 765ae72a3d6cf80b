import StoreBench.Json.Layout
import StoreBench.Run.Summary

/-! A summary in one time unit, as a block of text or as a document. -/
namespace StoreBench

structure WorkerReport where
  worker : Nat
  cpu : Option Nat
  duration : Binary64
  counters : Counters
deriving DecidableEq, Repr

structure Report where
  unit : TimeUnit
  threads : Nat
  duration : Binary64
  throughput : Binary64
  totals : Counters
  workers : List WorkerReport
deriving DecidableEq, Repr

namespace Report

open Binary64 (plain)

def ofSummary (summary : Summary) (unit : TimeUnit) : Except Fault Report := do
  let throughput ← summary.throughput unit
  return {
    unit
    threads := summary.threads
    duration := unit.convert summary.duration
    throughput
    totals := summary.totals
    workers := summary.workers.map fun w =>
      { worker := w.worker
        cpu := w.cpu
        duration := unit.convert w.window.elapsed
        counters := w.counters } }

def rule : String := "----------------------------------------"

/-- The tallies as lines. Invalid transactions are listed in totals only. -/
def counterLines (c : Counters) (invalid : Bool) : List String :=
  [s!"failures      = {c.failures}",
   s!"canceled      = {c.canceledTxs}",
   s!"r snap misses = {c.readSnapshotMisses}",
   s!"w snap misses = {c.writeSnapshotMisses}"] ++
  (if invalid then [s!"invalid txs   = {c.invalidTxs}"] else []) ++
  [s!"w/w conflicts = {c.wwConflicts}",
   s!"r/w conflicts = {c.rwConflicts}"]

def workerLines (unit : TimeUnit) (w : WorkerReport) : List String :=
  [rule, s!"results for thread-{w.worker}", rule] ++
  (match w.cpu with
    | some cpu => [s!"cpu           = {cpu}"]
    | none => []) ++
  counterLines w.counters false ++
  [s!"duration      = {plain.text w.duration}{unit.spelling}"]

/-- The lines of the text block. A verbose one has a block for each worker ahead of the rest. -/
def lines (report : Report) (verbose : Bool) : List String :=
  (if verbose then
    report.workers.flatMap (workerLines report.unit) ++ [rule, "summary", rule]
  else []) ++
  [s!"time          = {plain.text report.duration} {report.unit.spelling}"] ++
  counterLines report.totals true ++
  [s!"throughput    = {plain.text report.throughput}/{report.unit.spelling}"]

def text (report : Report) (verbose : Bool) : String :=
  String.join ((report.lines verbose).map (· ++ "\n"))

section document

open Json (Layout.array Layout.object)

def number (x : Binary64) : Bytes := Bytes.ofText (Binary64.document.text x)

def counterMembers (c : Counters) : List (String × Bytes) :=
  c.named.map fun (name, count) => (name, Bytes.decimal count)

def workerDocument (w : WorkerReport) : Bytes :=
  let cpu :=
    match w.cpu with
    | some cpu => Bytes.decimal cpu
    | none => Bytes.ofText "null"
  Layout.object 2
    ([("worker", Bytes.decimal w.worker), ("cpu", cpu), ("duration", number w.duration)] ++
      counterMembers w.counters)

def document (report : Report) : Bytes :=
  Layout.object 0
    [("unit", report.unit.document),
     ("threads", Bytes.decimal report.threads),
     ("duration", number report.duration),
     ("throughput", number report.throughput),
     ("totals", Layout.object 1 (counterMembers report.totals)),
     ("workers", Layout.array 1 (report.workers.map workerDocument))]

end document

end Report

end StoreBench
