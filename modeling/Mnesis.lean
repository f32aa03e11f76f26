import Mnesis.Aggregates.Loads
import Mnesis.Atomicity
import Mnesis.Chunk.Framing
import Mnesis.Command.Failure
import Mnesis.Fjall.BlockingReads
import Mnesis.Fjall.ExportScans
import Mnesis.Fjall.WorkerRuns
import Mnesis.Import.Abort
import Mnesis.InMemory.Reading
import Mnesis.Kernel.ErrorId
import Mnesis.Postgres.ListWalks
import Mnesis.Postgres.ScanGuarantees
import Mnesis.Projections.Pacing
import Mnesis.Projections.System
import Mnesis.Store.Frames
import Mnesis.Subscriptions.GlobalWake
import Mnesis.Subscriptions.Guarantees
import Mnesis.Subscriptions.Wakes
import Mnesis.Transfer
import Mnesis.Transforms.Rewrite
