import CePubsub.Laws.Log
import CePubsub.Lib.Watermark
import CePubsub.Laws.Attempts
import CePubsub.Laws.Exclusive
import CePubsub.Laws.Dedup
import CePubsub.Laws.AckBound
import CePubsub.Laws.Publish
import CePubsub.Laws.Ingest
import CePubsub.Laws.Remote
import CePubsub.Laws.Reply
import CePubsub.Laws.Handle
import CePubsub.Laws.Settled
import CePubsub.Laws.Outstanding
import CePubsub.Laws.Leasing
import CePubsub.Laws.Pull
import CePubsub.Laws.Admission
import CePubsub.Laws.Gated
import CePubsub.Laws.Snapshot
import CePubsub.Laws.Bounds
import CePubsub.Laws.Cache
import CePubsub.Laws.Batch
import CePubsub.Laws.Retention
import CePubsub.Laws.Drain
import CePubsub.Laws.Continuation
import CePubsub.Laws.Retry
import CePubsub.Laws.FilterRender
import CePubsub.Laws.TokenSet
import CePubsub.Laws.Scope
import CePubsub.Laws.Live
import CePubsub.Laws.Scanner
import CePubsub.Laws.Wire
import CePubsub.Laws.Delivery
import CePubsub.Laws.Apart
import CePubsub.Laws.Published
import CePubsub.Laws.Replayed
import CePubsub.Laws.Once
import CePubsub.Laws.Traffic.Delivered
