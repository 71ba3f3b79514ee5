import NotificationQueue.Json.Record
import NotificationQueue.Json.Writer
import NotificationQueue.Text.Letters
import NotificationQueue.Text.Utf8
import NotificationQueue.Text.Blank
import NotificationQueue.Time.Calendar
import NotificationQueue.Time.Duration
import NotificationQueue.Time.Timestamp
import NotificationQueue.Uuid
import NotificationQueue.Event
import NotificationQueue.Subject
import NotificationQueue.Base64
import NotificationQueue.Settings.Access
import NotificationQueue.Settings.Queue
import NotificationQueue.Settings.Server
import NotificationQueue.Settings.LogFilter
import NotificationQueue.Settings.Logging
import NotificationQueue.Digest.Sha2
import NotificationQueue.Clock
import NotificationQueue.Slots
import NotificationQueue.Store
import NotificationQueue.Poll
import NotificationQueue.Publish
import NotificationQueue.LongPoll
import NotificationQueue.Service.Basic
import NotificationQueue.Token.Claims
import NotificationQueue.Token.Header
import NotificationQueue.Token.Validation
import NotificationQueue.Http.Encoded
import NotificationQueue.Http.MediaType
import NotificationQueue.Http.Message
import NotificationQueue.Access
import NotificationQueue.Http.Envelope
import NotificationQueue.Http.Api
import NotificationQueue.Http.Document
import NotificationQueue.Http.Exchange
import NotificationQueue.Simulation.Basic
import NotificationQueue.Simulation.Script
import NotificationQueue.Json.Pointer
import NotificationQueue.Proofs.Clock.Issued
import NotificationQueue.Proofs.Store.Eager
import NotificationQueue.Proofs.Service.Horizon
import NotificationQueue.Proofs.Delivery.Received
import NotificationQueue.Proofs.Delivery.Pages
import NotificationQueue.Proofs.Store.Trimming
import NotificationQueue.Proofs.Service.Changes
import NotificationQueue.Proofs.Delivery.Filtered
import NotificationQueue.Proofs.Service.Shutdown
import NotificationQueue.Proofs.LongPoll.Deadline
import NotificationQueue.Proofs.Service.Agreement
import NotificationQueue.Proofs.Token.Validation
import NotificationQueue.Proofs.Http.Polling
import NotificationQueue.Proofs.Http.Startup
import NotificationQueue.Proofs.Service.Subjects
import NotificationQueue.Proofs.Wire
import NotificationQueue.Proofs.Delivery.Wake
import NotificationQueue.Proofs.LongPoll.Cancellation
import NotificationQueue.Proofs.Service.Validity
import NotificationQueue.Proofs.Http.Callers
import NotificationQueue.Proofs.Token.Issue
import NotificationQueue.Proofs.Delivery.Routing
import NotificationQueue.Proofs.Delivery.Spelling
import NotificationQueue.Proofs.LongPoll.Spacing
import NotificationQueue.Proofs.Store.Expiry
import NotificationQueue.Proofs.Simulation
