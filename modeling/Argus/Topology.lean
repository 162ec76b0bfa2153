import Argus.Insights.Http

/-!
# Topology edges of log entries

`topology.InferTopologyEdges` and `topology.InferTopologyFromJSON`: the calls between services
that a message shows.
-/

namespace Argus

open Foundations Regex

/-- `topology.TopologyEdge`. -/
structure TopologyEdge where
  source : String
  target : String
  kind : String
  deriving DecidableEq

/-- `httpHostRe`. -/
def httpHostRe : Regex := seqs [word "http", opt (word "s"), word "://",
  group (some' (folded fun c => ('a' ≤ c && c ≤ 'z') || c.isDigit || c == '.' || c == '_' ||
    c == '-')),
  opt (seqs [char ':', some' Char.isDigit])]

/-- `amqpQueueRe` and `amqpChanRe`: a JSON member of this name. -/
def amqpRe (name : String) : Regex := seqs [char '"', word name, char '"', many spaceSet, char ':',
  many spaceSet, char '"', group (some' (· != '"')), char '"']

/-- `pathSvcRe`. -/
def pathSvcRe : Regex := seqs [alts (["post", "get", "put", "delete", "patch"].map word),
  some' spaceSet, char '/',
  group (some' (folded fun c => ('a' ≤ c && c ≤ 'z') || c.isDigit || c == '_' || c == '-'))]

/-- `sanitizeService`. -/
def sanitizeService (rt : Runtime) (name : String) : String :=
  String.ofList ((trimSpace (rt.toLower name)).toList.takeWhile (· != ':'))

/-- `queueService`. -/
def queueService (rt : Runtime) (queue : String) : String :=
  let lower := (rt.toLower queue).toList
  let queue := if ".queue".toList.isSuffixOf lower then lower.take (lower.length - 6) else lower
  let part := queue.takeWhile (· != '.')
  if part ≠ [] then sanitizeService rt (String.ofList part)
  else sanitizeService rt (String.ofList queue)

/-- The closure `add`: an edge to another service that is not there yet. -/
def addEdge (rt : Runtime) (source : String) (out : List TopologyEdge)
    (found : String × String) : List TopologyEdge :=
  let edge : TopologyEdge := ⟨source, sanitizeService rt found.1, found.2⟩
  if edge.target = "" ∨ edge.target = source ∨ edge ∈ out then out else out ++ [edge]

/-- The targets of a message with their kinds, in the order in which they are added. -/
def foundTargets (rt : Runtime) (msg : String) : List (String × String) :=
  ((firstGroup httpHostRe msg).map fun m => (m, "http")).toList ++
    ((firstGroup pathSvcRe msg).map fun m => (m, "http")).toList ++
    ((firstGroup (amqpRe "queue") msg).map fun m => (queueService rt m, "amqp")).toList ++
    ((firstGroup (amqpRe "channel") msg).map fun m => (queueService rt m, "amqp")).toList ++
    (if contains (toLower msg) "rabbitmq" || contains (toLower msg) "message-bus" then
      [("message-bus", "amqp")] else [])

/-- The service of an entry, or the one that its container name suggests. -/
def LogEntry.service (e : LogEntry) : String :=
  if e.labels.get "service" = "" then inferServiceFromContainer (e.labels.get "container")
  else e.labels.get "service"

/-- `InferTopologyEdges`. -/
def inferTopologyEdges (rt : Runtime) (e : LogEntry) : List TopologyEdge :=
  if e.service = "" then []
  else (foundTargets rt e.message).foldl (addEdge rt e.service) []

/-- `InferTopologyFromJSON`. The function `strField` of the package is `stringField`. -/
def inferTopologyFromJSON (rt : Runtime) (e : LogEntry) : List TopologyEdge :=
  if !hasPrefix (trimSpace e.message) "\x7b" then []
  else
    match unmarshalFields e.message with
    | none => []
    | some m =>
      let source := if stringField m ["service"] = "" then e.labels.get "service"
        else stringField m ["service"]
      if source = "" then []
      else
        let url := stringField m ["url", "path", "target"]
        if url = "" then inferTopologyEdges rt e
        else (inferTopologyEdges rt { e with message := url }).map
          fun edge => { edge with source := source }

end Argus
