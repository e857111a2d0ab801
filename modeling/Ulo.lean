import Ulo.Lifecycle.LoadShutdown
import Ulo.Rpc.Deliveries
import Ulo.Rpc.CallEnd
import Ulo.Rpc.Queue
import Ulo.Tcp.Framing
import Ulo.Kafka.Offsets
import Ulo.Mqtt.Publish
import Ulo.Mqtt.Drain
import Ulo.Rpc.Lanes
import Ulo.Nats.Replies
import Ulo.Udp.Close
import Ulo.Http.Grammar
import Ulo.Http.Mount
import Ulo.Http.StreamEnd
import Ulo.Ws.Tracker
import Ulo.Ws.Reading
import Ulo.Ws.Cancel
import Ulo.Ws.KeepAlive
import Ulo.Ws.Hooks
import Ulo.GraphqlWs.Close
import Ulo.Timer
import Ulo.Redact
