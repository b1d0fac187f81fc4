import Hooklane.Domain.Reordering
import Hooklane.Domain.Downstream
import Hooklane.Queue.Atomicity
import Hooklane.Queue.ClaimGuarantees
import Hooklane.Queue.RecoveryGuarantees
import Hooklane.Queue.IdempotencyGuarantees
import Hooklane.Queue.IntegrityGuarantees
import Hooklane.Queue.GaugeGuarantees
import Hooklane.Queue.StatusGuarantees
import Hooklane.Api.Guarantees
import Hooklane.Cloudflare.QueueGuarantees
import Hooklane.Cloudflare.StartGuarantees
import Hooklane.Cloudflare.DispatchGuarantees
import Hooklane.Cloudflare.StorageGuarantees
import Hooklane.Cloudflare.StatusGuarantees
import Hooklane.Cloudflare.Agreement
import Hooklane.Worker.MetricsGuarantees
import Hooklane.Worker.RuntimeGuarantees
import Hooklane.GoalLoop.Success
