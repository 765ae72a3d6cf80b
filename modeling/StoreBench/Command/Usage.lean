/-! The help text of the command line. -/
namespace StoreBench

def usage : List String :=
  ["Workload generator and scaling benchmark for transactional key-value stores",
   "",
   "Usage: storebench [-v] <COMMAND>",
   "",
   "Commands:",
   "  kv-gen    Write random alphanumeric sample data as KEY;VALUE lines",
   "              --key-size N --value-size N --pairs N --output FILE [--seed N]",
   "  gen       Generate a workload, or with --split a pool of workloads",
   "              --data FILE --profile FILE --output FILE [--num-txs N]",
   "              [--tx-length-min N] [--tx-length-max N] [--seed N] [--split N]",
   "              [--profile-lengths]",
   "  run       Replay a workload against the in-memory store",
   "              --data FILE --workload FILE [--pool] [--threads N] [--retries N]",
   "              [--cpu-offset N] [--smt-ratio N] [--cpus N] [--no-pin]",
   "              [--unit s|ms|us|ns] [--format text|json]",
   "  baseline  Time single operations against the in-memory store",
   "              --data FILE --op get|put [--repeats N] [--unit s|ms|us|ns] [--seed N]",
   "  help      Print this message",
   "",
   "Options:",
   "  -v, --verbose  Per-thread results",
   "  -h, --help     Print help",
   "  -V, --version  Print version"]

def version : String := "storebench 0.1.0"

end StoreBench
