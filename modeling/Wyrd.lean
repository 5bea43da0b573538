import Wyrd.Membership.Roles
import Wyrd.Authorization.History
import Wyrd.Authorization.Renaming
import Wyrd.Intake.Precedence
import Wyrd.Intake.Account
import Wyrd.Intake.Views
import Wyrd.Outbox.Idle
import Wyrd.Runtime.Answer
import Wyrd.Runtime.Fleet
import Wyrd.Durable.Codec.Evidence
import Wyrd.Durable.Splitting
import Wyrd.Mailbox.Reopening
import Wyrd.Mailbox.Live
import Wyrd.Mount.Coherence
import Wyrd.Mount.Closing
import Wyrd.Format.Updates
import Wyrd.Format.Roots
import Wyrd.View.Listing
import Wyrd.Membership.Memo
import Wyrd.Author.Merge
import Wyrd.Control.Payload
import Wyrd.Live.Owners
import Wyrd.Format.Retained
import Wyrd.Bulk.Candidates
import Wyrd.Bulk.NodeAddr
import Wyrd.Export.Staging
