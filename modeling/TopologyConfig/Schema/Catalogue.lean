import TopologyConfig.Schema.Registry

/-!
The catalogue of the keys that a cluster recognizes: the name of each key, the shape of its values and
what it is for. Names and shapes are part of the contract between clients, master and workers.
-/
namespace TopologyConfig

structure CatalogueKey where
  constant : String
  key : ConfigKey

namespace Catalogue

def entry (constant name : String) (shape : Shape) (doc : String) : CatalogueKey :=
  ⟨constant, ⟨name, some shape, doc, false⟩⟩

def registrations (constant name : String) (shape : Shape) (doc : String) : CatalogueKey :=
  ⟨constant, ⟨name, some shape, doc, true⟩⟩

def messaging : List CatalogueKey := [
  entry "STORM_MESSAGING_TRANSPORT" "storm.messaging.transport" .string
    "Plugin identifier of the transport used between tasks.",
  entry "STORM_MESSAGING_NETTY_BUFFER_SIZE" "storm.messaging.netty.buffer_size" .number
    "Socket buffer size in bytes for the netty transport.",
  entry "STORM_MESSAGING_NETTY_MAX_RETRIES" "storm.messaging.netty.max_retries" .number
    "Maximum reconnection attempts before a netty client gives up.",
  entry "STORM_MESSAGING_NETTY_MIN_SLEEP_MS" "storm.messaging.netty.min_wait_ms" .number
    "Minimum backoff between netty reconnection attempts, in milliseconds.",
  entry "STORM_MESSAGING_NETTY_MAX_SLEEP_MS" "storm.messaging.netty.max_wait_ms" .number
    "Maximum backoff between netty reconnection attempts, in milliseconds.",
  entry "STORM_MESSAGING_NETTY_SERVER_WORKER_THREADS" "storm.messaging.netty.server_worker_threads" .number
    "Number of netty server worker threads.",
  entry "STORM_MESSAGING_NETTY_CLIENT_WORKER_THREADS" "storm.messaging.netty.client_worker_threads" .number
    "Number of netty client worker threads.",
  entry "STORM_NETTY_MESSAGE_BATCH_SIZE" "storm.messaging.netty.transfer.batch.size" .number
    "Maximum bytes batched into a single netty transfer.",
  entry "STORM_NETTY_FLUSH_CHECK_INTERVAL_MS" "storm.messaging.netty.flush.check.interval.ms" .number
    "Interval between checks for pending netty messages to flush."]

def coordination : List CatalogueKey := [
  entry "STORM_ZOOKEEPER_SERVERS" "storm.zookeeper.servers" .strings
    "Hostnames of the coordination service ensemble.",
  entry "STORM_ZOOKEEPER_PORT" "storm.zookeeper.port" .number
    "Port of the coordination service ensemble.",
  entry "STORM_ZOOKEEPER_ROOT" "storm.zookeeper.root" .string
    "Root path under which cluster state is stored.",
  entry "STORM_ZOOKEEPER_SESSION_TIMEOUT" "storm.zookeeper.session.timeout" .number
    "Session timeout for coordination clients, in milliseconds.",
  entry "STORM_ZOOKEEPER_CONNECTION_TIMEOUT" "storm.zookeeper.connection.timeout" .number
    "Connection timeout for coordination clients, in milliseconds.",
  entry "STORM_ZOOKEEPER_RETRY_TIMES" "storm.zookeeper.retry.times" .number
    "Number of retries for coordination service operations.",
  entry "STORM_ZOOKEEPER_RETRY_INTERVAL" "storm.zookeeper.retry.interval" .number
    "Base interval between coordination retries, in milliseconds.",
  entry "STORM_ZOOKEEPER_RETRY_INTERVAL_CEILING" "storm.zookeeper.retry.intervalceiling.millis" .number
    "Ceiling on the interval between coordination retries, in milliseconds.",
  entry "STORM_ZOOKEEPER_AUTH_SCHEME" "storm.zookeeper.auth.scheme" .string
    "Authentication scheme used with the coordination service.",
  entry "STORM_ZOOKEEPER_AUTH_PAYLOAD" "storm.zookeeper.auth.payload" .string
    "Authentication payload used with the coordination service."]

def cluster : List CatalogueKey := [
  entry "STORM_LOCAL_DIR" "storm.local.dir" .string
    "Local directory where daemons keep small amounts of state.",
  entry "STORM_SCHEDULER" "storm.scheduler" .string
    "Plugin identifier of the scheduler used by the master.",
  entry "STORM_CLUSTER_MODE" "storm.cluster.mode" .string
    "Mode the cluster runs in, either \"distributed\" or \"local\".",
  entry "STORM_LOCAL_HOSTNAME" "storm.local.hostname" .string
    "Hostname daemons report instead of the auto-detected one.",
  entry "STORM_THRIFT_TRANSPORT_PLUGIN" "storm.thrift.transport" .string
    "Plugin identifier of the RPC transport factory.",
  entry "STORM_LOCAL_MODE_ZMQ" "storm.local.mode.zmq" .boolean
    "Whether local mode uses zmq instead of in-process queues.",
  entry "STORM_ID" "storm.id" .string
    "Identifier of the running topology, set by the cluster.",
  entry "TOPOLOGY_TUPLE_SERIALIZER" "topology.tuple.serializer" .string
    "Plugin identifier of the tuple serializer."]

def master : List CatalogueKey := [
  entry "NIMBUS_HOST" "nimbus.host" .string
    "Host the master daemon runs on.",
  entry "NIMBUS_THRIFT_PORT" "nimbus.thrift.port" .number
    "Port the master RPC server listens on.",
  entry "NIMBUS_THRIFT_MAX_BUFFER_SIZE" "nimbus.thrift.max_buffer_size" .number
    "Maximum buffer size of the master RPC server, in bytes.",
  entry "NIMBUS_CHILDOPTS" "nimbus.childopts" .string
    "Runtime options for the master process.",
  entry "NIMBUS_TASK_TIMEOUT_SECS" "nimbus.task.timeout.secs" .number
    "Seconds without a heartbeat before a task is reassigned.",
  entry "NIMBUS_MONITOR_FREQ_SECS" "nimbus.monitor.freq.secs" .number
    "How often the master checks heartbeats and reassigns work.",
  entry "NIMBUS_CLEANUP_INBOX_FREQ_SECS" "nimbus.cleanup.inbox.freq.secs" .number
    "How often the master deletes expired uploaded artifacts.",
  entry "NIMBUS_INBOX_JAR_EXPIRATION_SECS" "nimbus.inbox.jar.expiration.secs" .number
    "Age in seconds after which an uploaded artifact is deleted.",
  entry "NIMBUS_SUPERVISOR_TIMEOUT_SECS" "nimbus.supervisor.timeout.secs" .number
    "Seconds without a heartbeat before a supervisor is considered dead.",
  entry "NIMBUS_TASK_LAUNCH_SECS" "nimbus.task.launch.secs" .number
    "Grace period granted to tasks that have just been launched.",
  entry "NIMBUS_REASSIGN" "nimbus.reassign" .boolean
    "Whether the master reassigns tasks when workers die.",
  entry "NIMBUS_FILE_COPY_EXPIRATION_SECS" "nimbus.file.copy.expiration.secs" .number
    "Seconds of inactivity after which a file transfer is abandoned.",
  entry "NIMBUS_TOPOLOGY_VALIDATOR" "nimbus.topology.validator" .string
    "Plugin identifier of the topology validator run on submission.",
  entry "NIMBUS_AUTHORIZER" "nimbus.authorizer" .string
    "Plugin identifier of the master authorization plugin."]

def consoles : List CatalogueKey := [
  entry "UI_PORT" "ui.port" .number
    "Port the web UI listens on.",
  entry "UI_CHILDOPTS" "ui.childopts" .string
    "Runtime options for the web UI process.",
  entry "LOGVIEWER_PORT" "logviewer.port" .number
    "Port the log viewer listens on.",
  entry "LOGVIEWER_CHILDOPTS" "logviewer.childopts" .string
    "Runtime options for the log viewer process.",
  entry "LOGVIEWER_APPENDER_NAME" "logviewer.appender.name" .string
    "Name of the log appender the log viewer reads from."]

def remoteCalls : List CatalogueKey := [
  entry "DRPC_SERVERS" "drpc.servers" .strings
    "Hostnames of the distributed RPC servers.",
  entry "DRPC_PORT" "drpc.port" .number
    "Port distributed RPC servers listen on.",
  entry "DRPC_WORKER_THREADS" "drpc.worker.threads" .number
    "Number of distributed RPC worker threads.",
  entry "DRPC_QUEUE_SIZE" "drpc.queue.size" .number
    "Capacity of the distributed RPC request queue.",
  entry "DRPC_INVOCATIONS_PORT" "drpc.invocations.port" .number
    "Port topologies use to fetch distributed RPC invocations.",
  entry "DRPC_REQUEST_TIMEOUT_SECS" "drpc.request.timeout.secs" .number
    "Seconds before an unanswered distributed RPC request times out.",
  entry "DRPC_CHILDOPTS" "drpc.childopts" .string
    "Runtime options for the distributed RPC server process."]

def supervisor : List CatalogueKey := [
  entry "SUPERVISOR_SCHEDULER_META" "supervisor.scheduler.meta" .map
    "Arbitrary metadata a supervisor exposes to the scheduler.",
  entry "SUPERVISOR_SLOTS_PORTS" "supervisor.slots.ports" .numbers
    "Ports a supervisor may start workers on, one worker per port.",
  entry "SUPERVISOR_CHILDOPTS" "supervisor.childopts" .string
    "Runtime options for the supervisor process.",
  entry "SUPERVISOR_WORKER_TIMEOUT_SECS" "supervisor.worker.timeout.secs" .number
    "Seconds without a heartbeat before a supervisor restarts a worker.",
  entry "SUPERVISOR_WORKER_START_MAX_RETRY" "supervisor.worker.start.retry.max" .number
    "Maximum attempts to start a worker.",
  entry "SUPERVISOR_WORKER_START_TIMEOUT_SECS" "supervisor.worker.start.timeout.secs" .number
    "Seconds a newly started worker has to produce its first heartbeat.",
  entry "SUPERVISOR_ENABLE" "supervisor.enable" .boolean
    "Whether the supervisor manages worker processes.",
  entry "SUPERVISOR_HEARTBEAT_FREQUENCY_SECS" "supervisor.heartbeat.frequency.secs" .number
    "How often the supervisor sends heartbeats.",
  entry "SUPERVISOR_MONITOR_FREQUENCY_SECS" "supervisor.monitor.frequency.secs" .number
    "How often the supervisor checks worker heartbeats."]

def worker : List CatalogueKey := [
  entry "WORKER_CHILDOPTS" "worker.childopts" .stringOrStrings
    "Runtime options for worker processes.",
  entry "WORKER_RECEIVER_THREAD_COUNT" "topology.worker.receiver.thread.count" .number
    "Number of receiver threads per worker.",
  entry "WORKER_HEARTBEAT_FREQUENCY_SECS" "worker.heartbeat.frequency.secs" .number
    "How often workers heartbeat to the supervisor.",
  entry "TASK_HEARTBEAT_FREQUENCY_SECS" "task.heartbeat.frequency.secs" .number
    "How often tasks heartbeat their status to the master.",
  entry "TASK_REFRESH_POLL_SECS" "task.refresh.poll.secs" .number
    "How often tasks refresh their connections to other tasks."]

def topology : List CatalogueKey := [
  entry "TOPOLOGY_ENABLE_MESSAGE_TIMEOUTS" "topology.enable.message.timeouts" .boolean
    "Whether tuples time out when not fully processed in time.",
  entry "TOPOLOGY_DEBUG" "topology.debug" .boolean
    "When true every emitted message is logged.",
  entry "TOPOLOGY_MULTILANG_SERIALIZER" "topology.multilang.serializer" .string
    "Plugin identifier of the serializer for multi-language components.",
  entry "TOPOLOGY_WORKERS" "topology.workers" .number
    "Number of worker processes to allocate for the topology.",
  entry "TOPOLOGY_TASKS" "topology.tasks" .number
    "Number of tasks to create per component.",
  entry "TOPOLOGY_ACKER_EXECUTORS" "topology.acker.executors" .number
    "Number of executors tracking tuple trees; 0 disables acking.",
  entry "TOPOLOGY_MESSAGE_TIMEOUT_SECS" "topology.message.timeout.secs" .number
    "Seconds a tuple tree has to complete before it is failed.",
  registrations "TOPOLOGY_KRYO_REGISTER" "topology.kryo.register" .serializations
    "Serialization registrations: class identifiers or \x7bclass: serializer\x7d maps.",
  registrations "TOPOLOGY_KRYO_DECORATORS" "topology.kryo.decorators" .strings
    "Identifiers of decorators applied to the serialization engine.",
  entry "TOPOLOGY_KRYO_FACTORY" "topology.kryo.factory" .string
    "Plugin identifier of the serialization engine factory.",
  entry "TOPOLOGY_SKIP_MISSING_KRYO_REGISTRATIONS" "topology.skip.missing.kryo.registrations" .boolean
    "Whether unresolvable serialization registrations are skipped.",
  registrations "TOPOLOGY_METRICS_CONSUMER_REGISTER" "topology.metrics.consumer.register" .metricsConsumers
    "Metrics consumer registrations: \x7bclass, parallelism.hint, argument\x7d records.",
  entry "TOPOLOGY_MAX_TASK_PARALLELISM" "topology.max.task.parallelism" .number
    "Upper bound on the parallelism of any component.",
  entry "TOPOLOGY_MAX_SPOUT_PENDING" "topology.max.spout.pending" .number
    "Maximum pending tuples per spout task.",
  entry "TOPOLOGY_SPOUT_WAIT_STRATEGY" "topology.spout.wait.strategy" .string
    "Plugin identifier of the strategy used when spouts have nothing to emit.",
  entry "TOPOLOGY_SLEEP_SPOUT_WAIT_STRATEGY_TIME_MS" "topology.sleep.spout.wait.strategy.time.ms" .number
    "Sleep time used by the sleeping spout wait strategy.",
  entry "TOPOLOGY_STATE_SYNCHRONIZATION_TIMEOUT_SECS" "topology.state.synchronization.timeout.secs" .number
    "Maximum time a component waits to synchronize state.",
  entry "TOPOLOGY_STATS_SAMPLE_RATE" "topology.stats.sample.rate" .number
    "Fraction of tuples sampled for statistics.",
  entry "TOPOLOGY_BUILTIN_METRICS_BUCKET_SIZE_SECS" "topology.builtin.metrics.bucket.size.secs" .number
    "Time bucket size of the built-in metrics.",
  entry "TOPOLOGY_FALL_BACK_ON_JAVA_SERIALIZATION" "topology.fall.back.on.java.serialization" .boolean
    "Whether unregistered types fall back to the platform serializer.",
  entry "TOPOLOGY_WORKER_CHILDOPTS" "topology.worker.childopts" .stringOrStrings
    "Topology-specific runtime options appended to worker.childopts.",
  entry "TOPOLOGY_TRANSACTIONAL_ID" "topology.transactional.id" .string
    "Identifier used to store transactional topology state.",
  registrations "TOPOLOGY_AUTO_TASK_HOOKS" "topology.auto.task.hooks" .strings
    "Identifiers of task hooks attached to every task automatically.",
  entry "TOPOLOGY_EXECUTOR_RECEIVE_BUFFER_SIZE" "topology.executor.receive.buffer.size" .powerOfTwo
    "Size of each executor's receive queue.",
  entry "TOPOLOGY_RECEIVER_BUFFER_SIZE" "topology.receiver.buffer.size" .powerOfTwo
    "Maximum messages batched by a worker receiver thread.",
  entry "TOPOLOGY_EXECUTOR_SEND_BUFFER_SIZE" "topology.executor.send.buffer.size" .powerOfTwo
    "Size of each executor's send queue.",
  entry "TOPOLOGY_TRANSFER_BUFFER_SIZE" "topology.transfer.buffer.size" .number
    "Size of each worker's outbound transfer queue.",
  entry "TOPOLOGY_TICK_TUPLE_FREQ_SECS" "topology.tick.tuple.freq.secs" .number
    "How often tick tuples are sent to each component.",
  entry "TOPOLOGY_DISRUPTOR_WAIT_STRATEGY" "topology.disruptor.wait.strategy" .string
    "Plugin identifier of the wait strategy used by internal queues.",
  entry "TOPOLOGY_WORKER_SHARED_THREAD_POOL_SIZE" "topology.worker.shared.thread.pool.size" .number
    "Size of the thread pool shared by components of a worker.",
  entry "TOPOLOGY_ERROR_THROTTLE_INTERVAL_SECS" "topology.error.throttle.interval.secs" .number
    "Interval over which reported errors are throttled.",
  entry "TOPOLOGY_MAX_ERROR_REPORT_PER_INTERVAL" "topology.max.error.report.per.interval" .number
    "Maximum errors reported per task per throttle interval.",
  entry "TOPOLOGY_TRIDENT_BATCH_EMIT_INTERVAL_MILLIS" "topology.trident.batch.emit.interval.millis" .number
    "How often batches are emitted by batching topologies.",
  entry "TOPOLOGY_NAME" "topology.name" .string
    "Name of the topology, set by the cluster.",
  entry "TOPOLOGY_SHELLBOLT_MAX_PENDING" "topology.shellbolt.max.pending" .number
    "Maximum pending messages queued for a multi-language bolt."]

def transactional : List CatalogueKey := [
  entry "TRANSACTIONAL_ZOOKEEPER_ROOT" "transactional.zookeeper.root" .string
    "Root path for transactional topology state.",
  entry "TRANSACTIONAL_ZOOKEEPER_SERVERS" "transactional.zookeeper.servers" .strings
    "Coordination servers for transactional state; defaults to the cluster's.",
  entry "TRANSACTIONAL_ZOOKEEPER_PORT" "transactional.zookeeper.port" .number
    "Coordination port for transactional state; defaults to the cluster's."]

def zmqTransport : List CatalogueKey := [
  entry "ZMQ_THREADS" "zmq.threads" .number
    "Number of threads zmq uses per worker.",
  entry "ZMQ_LINGER_MILLIS" "zmq.linger.millis" .number
    "How long a closed zmq connection keeps sending pending messages.",
  entry "ZMQ_HWM" "zmq.hwm" .number
    "zmq high water mark for outbound messages."]

def development : List CatalogueKey := [
  entry "JAVA_LIBRARY_PATH" "java.library.path" .string
    "Native library search path for worker processes.",
  entry "DEV_ZOOKEEPER_PATH" "dev.zookeeper.path" .string
    "Local path used by the in-process coordination server.",
  entry "ISOLATION_SCHEDULER_MACHINES" "isolation.scheduler.machines" .map
    "Topology name to number of dedicated machines for the isolation scheduler."]

def adaptiveScheduler : List CatalogueKey := [
  entry "ADAPTIVE_SCHEDULER_ENABLED" "adaptivescheduler.enabled" .boolean
    "Whether the adaptive scheduler is active.",
  entry "ADAPTIVE_SCHEDULER_NETWORK_SPACE_ROUND_DURATION" "adaptivescheduler.network_space.round.duration" .number
    "Duration of a network coordinate estimation round.",
  entry "ADAPTIVE_SCHEDULER_CONTINOUS_SCHEDULER_FREQ_SEC" "adaptivescheduler.continuous_scheduler.freq.sec" .number
    "How often the continuous scheduler runs, in seconds.",
  entry "ADAPTIVE_SCHEDULER_NETWORK_SPACE_ALPHA" "adaptivescheduler.network_space.alpha" .number
    "Alpha coefficient of the network coordinate estimator.",
  entry "ADAPTIVE_SCHEDULER_NETWORK_SPACE_BETA" "adaptivescheduler.network_space.beta" .number
    "Beta coefficient of the network coordinate estimator.",
  entry "ADAPTIVE_SCHEDULER_NETWORK_SPACE_SERVER_PORT" "adaptivescheduler.network_space.server.port" .number
    "Port of the network coordinate exchange server.",
  entry "ADAPTIVE_SCHEDULER_NETWORK_SPACE_CONFIDENCE_THRESHOLD" "adaptivescheduler.network_space.confidence_threshold" .number
    "Confidence a coordinate estimate needs before it is used.",
  entry "ADAPTIVE_SCHEDULER_NETWORK_SPACE_ROUND_BEETWEEN_PUBLICATION" "adaptivescheduler.network_space.round_between_publications" .number
    "Estimation rounds between publications of local coordinates.",
  entry "ADAPTIVE_SCHEDULER_WORKER_MONITOR_ENABLED" "adaptivescheduler.worker_monitor.enabled" .boolean
    "Whether workers collect traffic statistics for the scheduler.",
  entry "ADAPTIVE_SCHEDULER_WORKER_MONITOR_COMPUTE_STATS_FREQ_SEC" "adaptivescheduler.worker_monitor.stats.freq.sec" .number
    "How often worker traffic statistics are computed, in seconds.",
  entry "ADAPTIVE_SCHEDULER_INTERNAL_DATABASE_PORT" "adaptivescheduler.internal.database.port" .number
    "Port of the scheduler's internal statistics database.",
  entry "ADAPTIVE_SCHEDULER_CONTINUOUS_SCHEDULER_FORCE_THRESHOLD" "adaptivescheduler.continuous_scheduler.force.threshold" .number
    "Cost threshold above which a move is forced.",
  entry "ADAPTIVE_SCHEDULER_CONTINUOUS_SCHEDULER_FORCE_DELTA" "adaptivescheduler.continuous_scheduler.force.delta" .number
    "Step applied when computing forced moves.",
  entry "ADAPTIVE_SCHEDULER_CONTINUOUS_SCHEDULER_MAX_EXECUTOR_PER_SLOT" "adaptivescheduler.continuous_scheduler.max_exec_per_slot" .number
    "Maximum executors the continuous scheduler places in one slot.",
  entry "ADAPTIVE_SCHEDULER_CONTINUOUS_SCHEDULER_K_NEAREST_NODE" "adaptivescheduler.continuous_scheduler.nearest_node.k" .number
    "Number of nearest nodes considered as migration targets.",
  entry "ADAPTIVE_SCHEDULER_CONTINUOUS_SCHEDULER_MIGRATION_THRESHOLD" "adaptivescheduler.continuous_scheduler.migration_threshold" .number
    "Minimum gain required before an executor migrates.",
  entry "ADAPTIVE_SCHEDULER_INITIAL_SCHEDULER_LOCATION_AWARE" "adaptivescheduler.initial_scheduler.location_aware" .boolean
    "Whether initial placement takes node locations into account.",
  entry "ADAPTIVE_SCHEDULER_USE_EXTENDED_SPACE" "adaptivescheduler.space.use_extended_space" .boolean
    "Whether the extended cost space is used for placement.",
  entry "ADAPTIVE_SCHEDULER_JUST_MONITOR" "adaptivescheduler.just_monitor" .boolean
    "Collect statistics without migrating executors.",
  entry "ADAPTIVE_SCHEDULER_SPACE_MAX_LATENCY" "adaptivescheduler.space.latency.max" .number
    "Latency used to normalize the latency dimension of the cost space.",
  entry "ADAPTIVE_SCHEDULER_SPACE_W1" "adaptivescheduler.space.weight.1" .number
    "Weight of the first cost space dimension.",
  entry "ADAPTIVE_SCHEDULER_SPACE_W2" "adaptivescheduler.space.weight.2" .number
    "Weight of the second cost space dimension.",
  entry "ADAPTIVE_SCHEDULER_SPACE_W3" "adaptivescheduler.space.weight.3" .number
    "Weight of the third cost space dimension.",
  entry "ADAPTIVE_SCHEDULER_SPACE_RELIABILITY" "adaptivescheduler.space.reliability" .number
    "Default node reliability used by the cost space.",
  entry "ADAPTIVE_SCHEDULER_SPACE_USE_UTILIZATION" "adaptivescheduler.space.third.as.utilization" .boolean
    "Use node utilization as the third cost space dimension.",
  entry "ADAPTIVE_SCHEDULER_SPACE_RELIABILITY_PATH" "adaptivescheduler.space.reliability.path" .string
    "File holding per-node reliability values.",
  entry "ADAPTIVE_SCHEDULER_TYPE" "adaptivescheduler.type" .string
    "Name of the adaptive scheduling algorithm.",
  entry "ADAPTIVE_SCHEDULER_GRADIENTSTEP_RETRY_MAX_COUNTER" "adaptivescheduler.gradientstep.retry_max_counter" .integer
    "Maximum retries of the gradient step algorithm.",
  entry "ADAPTIVE_SCHEDULER_GRADIENTSTEP_TOPOLOGY_COOLDOWN" "adaptivescheduler.gradientstep.topology_cooldown" .integer
    "Rounds a topology rests after a migration.",
  entry "ADAPTIVE_SCHEDULER_GRADIENTSTEP_DEBUG" "adaptivescheduler.gradientstep.debug" .boolean
    "Verbose logging for the gradient step algorithm.",
  entry "ADAPTIVE_SCHEDULER_GRADIENTSTEP_IMPROVEMENT_TRESHOLD" "adaptivescheduler.gradientstep.improvement_treshold" .number
    "Minimum improvement a gradient step must achieve.",
  entry "ADAPTIVE_SCHEDULER_GRADIENTSTEP_MIGRATION_TRESHOLD" "adaptivescheduler.gradientstep.migration_treshold" .number
    "Cost threshold above which the gradient step migrates executors.",
  entry "ADAPTIVE_SCHEDULER_GRADIENTSTEP_MIGRATION_IMPROVEMENT_FRACTION" "adaptivescheduler.gradientstep.migration_improvement_fraction" .number
    "Fraction of the estimated gain that justifies a migration."]

def all : List CatalogueKey :=
  messaging ++ coordination ++ cluster ++ master ++ consoles ++ remoteCalls ++
    supervisor ++ worker ++ topology ++ transactional ++ zmqTransport ++ development ++ adaptiveScheduler

def constant? (constant : String) : Option String :=
  (all.find? (·.constant == constant)).map (·.key.name)

end Catalogue

def Registry.standard : Registry := ⟨Catalogue.all.map (·.key), 0⟩

end TopologyConfig
