import Ginfer.Pool.Proofs.BlockTables
import Ginfer.Pool.Proofs.Bundles
import Ginfer.Frontend.Proofs.Published
import Ginfer.Frontend.Proofs.Singleflight
import Ginfer.Executor.Proofs.Stream
import Ginfer.Executor.Proofs.Donors
import Ginfer.Frontend.Proofs.VisionControl
import Ginfer.Frontend.Proofs.CheckpointPrefix
import Ginfer.Qwen.Proofs.ServiceWork
import Ginfer.Qwen.Proofs.ContextCopy
import Ginfer.Qwen.Proofs.MtpLanes
import Ginfer.Pool.Proofs.ZeroPages
import Ginfer.Qwen.Proofs.GraphProfiles
import Ginfer.Qwen.Proofs.SequenceLayout
import Ginfer.Media.Proofs.Acquire
import Ginfer.Media.Proofs.Exif
import Ginfer.Frontend.Proofs.Digest
import Ginfer.Frontend.Proofs.Video
import Ginfer.Serve.Proofs.ResponseStore
import Ginfer.Serve.Proofs.MessagesStream
import Ginfer.Serve.Proofs.ResponsesStream
import Ginfer.Serve.Proofs.ToolCallRendering
import Ginfer.Serve.Proofs.ResponsesReplay
import Ginfer.Ops.Proofs.AcceptanceLaw
import Ginfer.Ops.Proofs.GqaWorkspace
import Ginfer.Ops.Proofs.CausalConvForms
import Ginfer.Ops.Proofs.SwaAttention
import Ginfer.Ops.Proofs.ExpertStores
import Ginfer.Muse.Proofs.Published
import Ginfer.Artifact.Proofs.Reader
import Ginfer.Ops.Proofs.RowSplitReaders
import Ginfer.Ops.Proofs.Nvfp4Gemv
import Ginfer.Ops.Proofs.Q5GemmSimt
import Ginfer.Ops.Proofs.GdnRound
import Ginfer.Ops.Fastdiv
import Ginfer.Ops.Proofs.CandidateHierarchy
