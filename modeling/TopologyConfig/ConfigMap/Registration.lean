import TopologyConfig.ConfigMap.Append
import TopologyConfig.Schema.Lookup

/-!
Building a configuration by typed calls. Accumulators append one entry to a list; setters replace a
scalar. Both check their argument where the call is made. A plugin is recorded by its identifier, for
which a class may be given.
-/
namespace TopologyConfig

/-- The identifier of a plugin: a class stands for its module and qualified name, all else for itself. -/
def Value.pluginIdentifier : Value → Value
  | .classRef module name => .str (module ++ "." ++ name)
  | v => v

structure Parameter where
  name : String
  default? : Option Value := none

structure Signature where
  name : String
  parameters : List Parameter

namespace Signature

abbrev Binding := Parameter × Option Value

def bindNamed (call name : String) (value : Value) : List Binding → Except CallError (List Binding)
  | [] => .error (.unexpected call name)
  | (p, held) :: rest =>
    if p.name == name then
      match held with
      | some _ => .error (.repeated call name)
      | none => .ok ((p, some value) :: rest)
    else (bindNamed call name value rest).map ((p, held) :: ·)

def bindAllNamed (call : String) (bs : List Binding) :
    List (String × Value) → Except CallError (List Binding)
  | [] => .ok bs
  | (name, value) :: rest => do bindAllNamed call (← bindNamed call name value bs) rest

def bindPositional : List Parameter → List Value → List Binding
  | [], _ => []
  | p :: ps, [] => (p, none) :: bindPositional ps []
  | p :: ps, v :: vs => (p, some v) :: bindPositional ps vs

def required (s : Signature) : Nat := (s.parameters.filter (·.default?.isNone)).length

def isMissing (b : Binding) : Bool := b.2.isNone && b.1.default?.isNone

/-- The values of the parameters in their order. A named argument that does not fit is reported before
too many positional ones, and those before missing ones. -/
def bind (s : Signature) (positional : List Value) (named : List (String × Value)) :
    Except CallError (List Value) := do
  let bs ← bindAllNamed s.name (bindPositional s.parameters positional) named
  if positional.length > s.parameters.length then
    .error (.tooMany s.name s.required s.parameters.length positional.length)
  else
    match bs.filter isMissing with
    | [] => .ok (bs.map (fun b => (b.2.or b.1.default?).getD .null))
    | missing => .error (.missing s.name (missing.map (·.1.name)))

end Signature

inductive Accumulator where
  | serialization
  | decorator
  | metricsConsumer
  | taskHook
deriving DecidableEq

namespace Accumulator

def all : List Accumulator := [serialization, decorator, metricsConsumer, taskHook]

def signature : Accumulator → Signature
  | serialization => ⟨"add_serialization", [⟨"conf", none⟩, ⟨"klass", none⟩, ⟨"serializer", some .null⟩]⟩
  | decorator => ⟨"add_decorator", [⟨"conf", none⟩, ⟨"klass", none⟩]⟩
  | metricsConsumer =>
    ⟨"add_metrics_consumer",
      [⟨"conf", none⟩, ⟨"klass", none⟩, ⟨"argument", some .null⟩, ⟨"parallelism_hint", some (.int 1)⟩]⟩
  | taskHook => ⟨"add_task_hook", [⟨"conf", none⟩, ⟨"klass", none⟩]⟩

def key : Accumulator → String
  | serialization => "topology.kryo.register"
  | decorator => "topology.kryo.decorators"
  | metricsConsumer => "topology.metrics.consumer.register"
  | taskHook => "topology.auto.task.hooks"

def entry : Accumulator → List Value → Except Misuse Value
  | serialization, [klass, serializer] =>
    match serializer with
    | .null => .ok klass.pluginIdentifier
    | serializer => do
      Value.hashable klass.pluginIdentifier
      .ok (.map [(klass.pluginIdentifier, serializer.pluginIdentifier)])
  | metricsConsumer, [klass, argument, hint] =>
    .ok (.map [(.str "class", klass.pluginIdentifier), (.str "parallelism.hint", hint),
      (.str "argument", argument)])
  | _, args => .ok (args.headD .null).pluginIdentifier

end Accumulator

inductive Setter where
  | debug
  | workers
  | ackers
  | messageTimeout
  | serializationFactory
  | skipMissingRegistrations
  | maxTaskParallelism
  | maxSpoutPending
  | statsSampleRate
  | fallBackOnPlatform
deriving DecidableEq

namespace Setter

def all : List Setter := [
  debug, workers, ackers, messageTimeout, serializationFactory, skipMissingRegistrations,
  maxTaskParallelism, maxSpoutPending, statsSampleRate, fallBackOnPlatform]

def names : Setter → String × String
  | debug => ("set_debug", "is_on")
  | workers => ("set_num_workers", "workers")
  | ackers => ("set_num_ackers", "num_executors")
  | messageTimeout => ("set_message_timeout_secs", "secs")
  | serializationFactory => ("set_kryo_factory", "klass")
  | skipMissingRegistrations => ("set_skip_missing_kryo_registrations", "skip")
  | maxTaskParallelism => ("set_max_task_parallelism", "maximum")
  | maxSpoutPending => ("set_max_spout_pending", "maximum")
  | statsSampleRate => ("set_stats_sample_rate", "rate")
  | fallBackOnPlatform => ("set_fall_back_on_java_serialization", "fallback")

def signature (s : Setter) : Signature := ⟨s.names.1, [⟨"conf", none⟩, ⟨s.names.2, none⟩]⟩

def key : Setter → String
  | debug => "topology.debug"
  | workers => "topology.workers"
  | ackers => "topology.acker.executors"
  | messageTimeout => "topology.message.timeout.secs"
  | serializationFactory => "topology.kryo.factory"
  | skipMissingRegistrations => "topology.skip.missing.kryo.registrations"
  | maxTaskParallelism => "topology.max.task.parallelism"
  | maxSpoutPending => "topology.max.spout.pending"
  | statsSampleRate => "topology.stats.sample.rate"
  | fallBackOnPlatform => "topology.fall.back.on.java.serialization"

def value (s : Setter) (argument : Value) : Value :=
  if s = serializationFactory then argument.pluginIdentifier else argument

end Setter

inductive TypedCall where
  | add (a : Accumulator)
  | assign (s : Setter)
  | assignAny
  /-- The identifier of the configuration itself, which is the configuration. -/
  | identify

namespace TypedCall

def signature : TypedCall → Signature
  | add a => a.signature
  | assign s => s.signature
  | assignAny => ⟨"_set", [⟨"conf", none⟩, ⟨"key", none⟩, ⟨"value", none⟩]⟩
  | identify => ⟨"plugin_identifier", [⟨"ref", none⟩]⟩

def all : List TypedCall :=
  Accumulator.all.map add ++ Setter.all.map assign ++ [assignAny, identify]

def ofName? (name : String) : Option TypedCall := all.find? (·.signature.name == name)

end TypedCall

namespace ConfigMap

def setChecked (c : ConfigMap) (key value : Value) : Except ConfigError ConfigMap := do
  if c.isSealed then
    match key.plain with
    | .ok text => .error (.sealedKey text)
    | .error e => .error (.numeral e)
  else
    c.registry.check key value
    c.set key value

def ofSet (c : ConfigMap) (r : Except ConfigError ConfigMap) : Appended :=
  match r with
  | .ok c => ⟨c, ⟨.ok (), []⟩⟩
  | .error e => .refused c e

def perform (c : ConfigMap) : TypedCall → List Value → Appended
  | .add a, args =>
    match a.entry args with
    | .ok entry => c.append (.str a.key) entry
    | .error e => .refused c (.misuse e)
  | .assign s, args => c.ofSet (c.setChecked (.str s.key) (s.value (args.headD .null)))
  | .assignAny, args => c.ofSet (c.setChecked (args.headD .null) ((args.drop 1).headD .null))
  | .identify, _ => c.ofSet (.ok c)

def call (c : ConfigMap) (t : TypedCall) (positional : List Value) (named : List (String × Value)) :
    Appended :=
  match t.signature.bind (c.asLayer :: positional) named with
  | .ok args => c.perform t (args.drop 1)
  | .error e => .refused c (.call e)

end ConfigMap
end TopologyConfig
