import TransactionalMemory.Proofs.Accounting
import TransactionalMemory.Proofs.AdmittedContexts
import TransactionalMemory.Proofs.Backoff
import TransactionalMemory.Proofs.CommitOrder
import TransactionalMemory.Proofs.CommittedState
import TransactionalMemory.Proofs.ConflictRule
import TransactionalMemory.Proofs.Discarding
import TransactionalMemory.Proofs.HostedValues
import TransactionalMemory.Proofs.IdleCommits
import TransactionalMemory.Proofs.IndependentCommits
import TransactionalMemory.Proofs.Inlining
import TransactionalMemory.Proofs.LazyCopying
import TransactionalMemory.Proofs.PairCommits
import TransactionalMemory.Proofs.PlainTable
import TransactionalMemory.Proofs.PolicyRoundTrip
import TransactionalMemory.Proofs.QueueConservation
import TransactionalMemory.Proofs.Reentry
import TransactionalMemory.Proofs.RefusedMerge
import TransactionalMemory.Proofs.RememberedReads
import TransactionalMemory.Proofs.Reporting
import TransactionalMemory.Proofs.Retries
import TransactionalMemory.Proofs.Serializability
import TransactionalMemory.Proofs.StackDiscipline
import TransactionalMemory.Proofs.Wrapping
import TransactionalMemory.Scenario.Play
