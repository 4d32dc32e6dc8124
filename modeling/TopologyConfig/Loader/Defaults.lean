import TopologyConfig.Value.Basic

/-!
The built-in defaults: the layer of configuration with the lowest priority.
-/
namespace TopologyConfig.Defaults

def decimal (digits places : Nat) : Binary64 := Binary64.ofRatio false digits (Nat.pow 10 places)

def cluster : List (String × Value) := [
  ("java.library.path", .str "/usr/local/lib:/opt/local/lib:/usr/lib"),
  ("storm.local.dir", .str "storm-local"),
  ("storm.zookeeper.servers", .list [.str "localhost"]),
  ("storm.zookeeper.port", .int 2181),
  ("storm.zookeeper.root", .str "/storm"),
  ("storm.zookeeper.session.timeout", .int 20000),
  ("storm.zookeeper.connection.timeout", .int 15000),
  ("storm.zookeeper.retry.times", .int 5),
  ("storm.zookeeper.retry.interval", .int 1000),
  ("storm.zookeeper.retry.intervalceiling.millis", .int 30000),
  ("storm.cluster.mode", .str "distributed"),
  ("storm.local.mode.zmq", .bool false),
  ("storm.thrift.transport", .str "backtype.storm.security.auth.SimpleTransportPlugin"),
  ("storm.messaging.transport", .str "backtype.storm.messaging.netty.Context")]

def master : List (String × Value) := [
  ("nimbus.host", .str "localhost"),
  ("nimbus.thrift.port", .int 6627),
  ("nimbus.thrift.max_buffer_size", .int 1048576),
  ("nimbus.childopts", .str "-Xmx1024m"),
  ("nimbus.task.timeout.secs", .int 30),
  ("nimbus.supervisor.timeout.secs", .int 60),
  ("nimbus.monitor.freq.secs", .int 10),
  ("nimbus.cleanup.inbox.freq.secs", .int 600),
  ("nimbus.inbox.jar.expiration.secs", .int 3600),
  ("nimbus.task.launch.secs", .int 120),
  ("nimbus.reassign", .bool true),
  ("nimbus.file.copy.expiration.secs", .int 600),
  ("nimbus.topology.validator", .str "backtype.storm.nimbus.DefaultTopologyValidator")]

def services : List (String × Value) := [
  ("ui.port", .int 8080),
  ("ui.childopts", .str "-Xmx768m"),
  ("logviewer.port", .int 8000),
  ("logviewer.childopts", .str "-Xmx128m"),
  ("logviewer.appender.name", .str "A1"),
  ("drpc.port", .int 3772),
  ("drpc.worker.threads", .int 64),
  ("drpc.queue.size", .int 128),
  ("drpc.invocations.port", .int 3773),
  ("drpc.request.timeout.secs", .int 600),
  ("drpc.childopts", .str "-Xmx768m"),
  ("transactional.zookeeper.root", .str "/transactional"),
  ("transactional.zookeeper.servers", .null),
  ("transactional.zookeeper.port", .null)]

def supervisor : List (String × Value) := [
  ("supervisor.slots.ports", .list [.int 6700, .int 6701, .int 6702, .int 6703]),
  ("supervisor.childopts", .str "-Xmx256m"),
  ("supervisor.worker.start.timeout.secs", .int 120),
  ("supervisor.worker.start.retry.max", .int 3),
  ("supervisor.worker.timeout.secs", .int 30),
  ("supervisor.monitor.frequency.secs", .int 3),
  ("supervisor.heartbeat.frequency.secs", .int 5),
  ("supervisor.enable", .bool true),
  ("supervisor.scheduler.meta", .map [])]

def worker : List (String × Value) := [
  ("worker.childopts", .str "-Xmx768m"),
  ("worker.heartbeat.frequency.secs", .int 1),
  ("task.heartbeat.frequency.secs", .int 3),
  ("task.refresh.poll.secs", .int 10),
  ("zmq.threads", .int 1),
  ("zmq.linger.millis", .int 5000),
  ("zmq.hwm", .int 0)]

def messaging : List (String × Value) := [
  ("storm.messaging.netty.server_worker_threads", .int 1),
  ("storm.messaging.netty.client_worker_threads", .int 1),
  ("storm.messaging.netty.buffer_size", .int 5242880),
  ("storm.messaging.netty.max_retries", .int 30),
  ("storm.messaging.netty.max_wait_ms", .int 1000),
  ("storm.messaging.netty.min_wait_ms", .int 100),
  ("storm.messaging.netty.transfer.batch.size", .int 262144),
  ("storm.messaging.netty.flush.check.interval.ms", .int 10)]

def topology : List (String × Value) := [
  ("topology.enable.message.timeouts", .bool true),
  ("topology.debug", .bool false),
  ("topology.workers", .int 1),
  ("topology.acker.executors", .null),
  ("topology.tasks", .null),
  ("topology.message.timeout.secs", .int 30),
  ("topology.multilang.serializer", .str "backtype.storm.multilang.JsonSerializer"),
  ("topology.skip.missing.kryo.registrations", .bool false),
  ("topology.kryo.factory", .str "backtype.storm.serialization.DefaultKryoFactory"),
  ("topology.kryo.register", .null),
  ("topology.kryo.decorators", .list []),
  ("topology.metrics.consumer.register", .list []),
  ("topology.auto.task.hooks", .null),
  ("topology.max.task.parallelism", .null),
  ("topology.max.spout.pending", .null),
  ("topology.state.synchronization.timeout.secs", .int 60),
  ("topology.stats.sample.rate", .float (decimal 5 2)),
  ("topology.builtin.metrics.bucket.size.secs", .int 60),
  ("topology.fall.back.on.java.serialization", .bool true),
  ("topology.worker.childopts", .null),
  ("topology.executor.receive.buffer.size", .int 1024),
  ("topology.executor.send.buffer.size", .int 1024),
  ("topology.receiver.buffer.size", .int 8),
  ("topology.transfer.buffer.size", .int 1024),
  ("topology.tick.tuple.freq.secs", .null),
  ("topology.worker.shared.thread.pool.size", .int 4),
  ("topology.disruptor.wait.strategy", .str "com.lmax.disruptor.BlockingWaitStrategy"),
  ("topology.spout.wait.strategy", .str "backtype.storm.spout.SleepSpoutWaitStrategy"),
  ("topology.sleep.spout.wait.strategy.time.ms", .int 1),
  ("topology.error.throttle.interval.secs", .int 10),
  ("topology.max.error.report.per.interval", .int 5),
  ("topology.tuple.serializer", .str "backtype.storm.serialization.types.ListDelegateSerializer"),
  ("topology.trident.batch.emit.interval.millis", .int 500),
  ("topology.shellbolt.max.pending", .int 100),
  ("topology.worker.receiver.thread.count", .int 1),
  ("dev.zookeeper.path", .str "/tmp/dev-storm-zookeeper")]

def adaptiveScheduler : List (String × Value) := [
  ("adaptivescheduler.enabled", .bool false),
  ("adaptivescheduler.type", .str "gradientstep"),
  ("adaptivescheduler.just_monitor", .bool false),
  ("adaptivescheduler.network_space.round.duration", .int 2000),
  ("adaptivescheduler.network_space.alpha", .float (decimal 5 1)),
  ("adaptivescheduler.network_space.beta", .float (decimal 5 1)),
  ("adaptivescheduler.network_space.server.port", .int 9124),
  ("adaptivescheduler.network_space.confidence_threshold", .float (decimal 8 1)),
  ("adaptivescheduler.network_space.round_between_publications", .int 10),
  ("adaptivescheduler.continuous_scheduler.freq.sec", .int 60),
  ("adaptivescheduler.continuous_scheduler.force.threshold", .int 10),
  ("adaptivescheduler.continuous_scheduler.force.delta", .float (decimal 5 1)),
  ("adaptivescheduler.continuous_scheduler.max_exec_per_slot", .int 4),
  ("adaptivescheduler.continuous_scheduler.nearest_node.k", .int 4),
  ("adaptivescheduler.continuous_scheduler.migration_threshold", .float (decimal 25 2)),
  ("adaptivescheduler.initial_scheduler.location_aware", .bool true),
  ("adaptivescheduler.worker_monitor.enabled", .bool true),
  ("adaptivescheduler.worker_monitor.stats.freq.sec", .int 10),
  ("adaptivescheduler.internal.database.port", .int 9125),
  ("adaptivescheduler.space.use_extended_space", .bool false),
  ("adaptivescheduler.space.latency.max", .float (decimal 2000 1)),
  ("adaptivescheduler.space.weight.1", .float (decimal 10 1)),
  ("adaptivescheduler.space.weight.2", .float (decimal 10 1)),
  ("adaptivescheduler.space.weight.3", .float (decimal 10 1)),
  ("adaptivescheduler.space.reliability", .float (decimal 10 1)),
  ("adaptivescheduler.space.third.as.utilization", .bool false),
  ("adaptivescheduler.gradientstep.retry_max_counter", .int 3),
  ("adaptivescheduler.gradientstep.topology_cooldown", .int 5),
  ("adaptivescheduler.gradientstep.debug", .bool false),
  ("adaptivescheduler.gradientstep.improvement_treshold", .float (decimal 5 2)),
  ("adaptivescheduler.gradientstep.migration_treshold", .float (decimal 1 1)),
  ("adaptivescheduler.gradientstep.migration_improvement_fraction", .float (decimal 5 1))]

def all : List (String × Value) :=
  cluster ++ master ++ services ++ supervisor ++ worker ++ messaging ++ topology ++ adaptiveScheduler

def entries : Entries := all.map (fun e => (.str e.1, e.2))

end TopologyConfig.Defaults
