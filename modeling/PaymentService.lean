import PaymentService.System
import PaymentService.Proofs.Notifications
import PaymentService.Proofs.Relay
import PaymentService.Proofs.Blocking
import PaymentService.Proofs.WebhookRetries
import PaymentService.Proofs.WriteOnce
import PaymentService.Proofs.NoLoss
import PaymentService.Proofs.Linearizable
import PaymentService.Proofs.RetryDelays
import PaymentService.Proofs.AttemptOf
import PaymentService.Proofs.Marks
import PaymentService.Proofs.WebhookUrls
import PaymentService.Proofs.ApiKey
import PaymentService.Proofs.RoundTrip
import PaymentService.Proofs.Validation
import PaymentService.Proofs.Dsn
import PaymentService.Proofs.HandlerRuns
import PaymentService.Proofs.Readers
import PaymentService.Proofs.Drain
import PaymentService.Proofs.Schedule
import PaymentService.Proofs.Recovery
import PaymentService.Proofs.CatchUp
import PaymentService.Proofs.LedgerRun
import PaymentService.Proofs.Settling
import PaymentService.Proofs.DeadLetters
import PaymentService.Proofs.Copies
