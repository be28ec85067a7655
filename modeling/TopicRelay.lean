import TopicRelay.Wire.ConsumeRequest
import TopicRelay.Wire.Decoder
import TopicRelay.Wire.Reply
import TopicRelay.Log.Faulty
import TopicRelay.Offset.Scheme
import TopicRelay.Offset.Faulty
import TopicRelay.Endpoint.MessageStream
import TopicRelay.Endpoint.ShutdownTrigger
import TopicRelay.Endpoint.Api
import TopicRelay.Endpoint.Configuration
import TopicRelay.Monitor.Backoff
import TopicRelay.Monitor.BaseUrl
import TopicRelay.Monitor.Client
import TopicRelay.Monitor.Configuration
import TopicRelay.Monitor.FailedReply
import TopicRelay.Monitor.Run
import TopicRelay.Monitor.Settings
import TopicRelay.Rehearsal.Loopback
import TopicRelay.Rehearsal.World
import TopicRelay.Proofs.Wire.Cuts
import TopicRelay.Proofs.Wire.Refusals
import TopicRelay.Proofs.Wire.Verdict
import TopicRelay.Proofs.Endpoint.Admission
import TopicRelay.Proofs.Endpoint.LiveLog
import TopicRelay.Proofs.Endpoint.Exchange
import TopicRelay.Proofs.Endpoint.Chunks
import TopicRelay.Proofs.Endpoint.Budget
import TopicRelay.Proofs.Endpoint.TopicByTopic
import TopicRelay.Proofs.Monitor.AtLeastOnce
import TopicRelay.Proofs.Monitor.Backoff
import TopicRelay.Proofs.Monitor.Bookkeeping
import TopicRelay.Proofs.Monitor.Checkpoints
import TopicRelay.Proofs.Monitor.ExactlyOnce
import TopicRelay.Proofs.Monitor.GivingUp
import TopicRelay.Proofs.Monitor.LifeCycle
import TopicRelay.Proofs.Monitor.Missing
import TopicRelay.Proofs.Monitor.Recording
import TopicRelay.Proofs.Monitor.Starting
import TopicRelay.Proofs.Monitor.Stops
import TopicRelay.Proofs.Monitor.TopicsApart
import TopicRelay.Proofs.Monitor.Watching
import TopicRelay.Proofs.Monitor.Whereabouts
import TopicRelay.Proofs.Offset.FileNames
import TopicRelay.Proofs.Offset.Files
import TopicRelay.Proofs.Offset.CutOff
import TopicRelay.Proofs.Rehearsal.HeavyBatch
import TopicRelay.Proofs.Wire.Oversize
import TopicRelay.Proofs.Wire.Weights
import TopicRelay.Proofs.Offset.Interruption
import TopicRelay.Proofs.Rehearsal.Agreement
import TopicRelay.Proofs.Rehearsal.Retrying
import TopicRelay.Proofs.Log.Operations
import TopicRelay.Proofs.Log.Ids
import TopicRelay.Proofs.Payload
import TopicRelay.Proofs.Wire.RoundTrip
import TopicRelay.Proofs.Wire.Representation
import TopicRelay.Proofs.Wire.Objects
