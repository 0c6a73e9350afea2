import ConsumerGroup.Text.Blank
import ConsumerGroup.Text.LowerCase
import ConsumerGroup.Text.Utf8
import ConsumerGroup.Text.Quoted
import ConsumerGroup.Text.Numeral
import ConsumerGroup.ConsumerConfig
import ConsumerGroup.Cluster
import ConsumerGroup.Envelope
import ConsumerGroup.Toml.Document
import ConsumerGroup.Settings.Reader
import ConsumerGroup.Settings.Validation
import ConsumerGroup.Settings.File
import ConsumerGroup.Metrics.Exposition
import ConsumerGroup.Handler
import ConsumerGroup.Redelivery
import ConsumerGroup.Publisher
import ConsumerGroup.Tracker
import ConsumerGroup.LogFormat
import ConsumerGroup.TokenPool.Clients
import ConsumerGroup.Broker.Watch
import ConsumerGroup.Registry
import ConsumerGroup.Engine.Run
import ConsumerGroup.Engine.Clock
import ConsumerGroup.Proofs.Watermarks
import ConsumerGroup.Proofs.Broker.Channels
import ConsumerGroup.Proofs.Claim.Loop
import ConsumerGroup.Proofs.Claim.Handling
import ConsumerGroup.Proofs.Engine.HandlingSteps
import ConsumerGroup.Proofs.Engine.MemberSteps
import ConsumerGroup.Proofs.Claim.View
import ConsumerGroup.Proofs.Engine.Claims
import ConsumerGroup.Proofs.Engine.Advance
import ConsumerGroup.Proofs.Claim.Records
import ConsumerGroup.Proofs.Claim.Accounts
import ConsumerGroup.Proofs.Claim.InFlight
import ConsumerGroup.Proofs.Claim.Marks
import ConsumerGroup.Proofs.Engine.Scripts
import ConsumerGroup.Proofs.SafeMarks
import ConsumerGroup.Proofs.Broker.Sessions
import ConsumerGroup.Proofs.Concurrency
import ConsumerGroup.Proofs.Broker.Coverage
import ConsumerGroup.Proofs.Claim.Processed
import ConsumerGroup.Proofs.AtLeastOnce
import ConsumerGroup.Proofs.Redelivery.Counts
import ConsumerGroup.Proofs.Redelivery.Hops
import ConsumerGroup.Proofs.Redelivery.Ladder
import ConsumerGroup.Proofs.Redelivery.Identity
import ConsumerGroup.Proofs.Claim.Completions
import ConsumerGroup.Proofs.AlwaysCompleted
import ConsumerGroup.Proofs.Broker.Topics
import ConsumerGroup.Proofs.Engine.Publishing
import ConsumerGroup.Proofs.Feedback.Runs
import ConsumerGroup.Proofs.Feedback.Ledger
import ConsumerGroup.Proofs.Feedback.Bounds
import ConsumerGroup.Proofs.Feedback.Quiet
import ConsumerGroup.Proofs.Feedback.Chains
import ConsumerGroup.Proofs.FeedbackEnds
import ConsumerGroup.Proofs.Broker.Commits
import ConsumerGroup.Proofs.Broker.Draws
import ConsumerGroup.Proofs.Claim.Drained
import ConsumerGroup.Proofs.Engine.Turns
import ConsumerGroup.Proofs.Engine.Commits
import ConsumerGroup.Proofs.Engine.OnTime
import ConsumerGroup.Proofs.Engine.Endings
import ConsumerGroup.Proofs.Engine.Leaving
import ConsumerGroup.Proofs.Engine.Retiring
import ConsumerGroup.Proofs.Engine.Stopping
import ConsumerGroup.Proofs.Teardown
import ConsumerGroup.Proofs.Engine.Offsets
import ConsumerGroup.Proofs.Turnover
import ConsumerGroup.Proofs.Alone
import ConsumerGroup.Proofs.CommitOrder
import ConsumerGroup.Proofs.Shutdown
import ConsumerGroup.Proofs.LeftHandlers
import ConsumerGroup.Proofs.Producers
import ConsumerGroup.Proofs.Addressing
import ConsumerGroup.Proofs.PublishCalls
import ConsumerGroup.Proofs.Registration
import ConsumerGroup.Proofs.Engine.Restarts
import ConsumerGroup.Proofs.Reconnect
import ConsumerGroup.Proofs.Broker.Calls
import ConsumerGroup.Proofs.Broker.Joins
import ConsumerGroup.Proofs.Broker.Deliveries
import ConsumerGroup.Proofs.ClaimContents
import ConsumerGroup.Proofs.RefusedRecords
import ConsumerGroup.Proofs.ValidSettings
import ConsumerGroup.Proofs.GroupLevels
import ConsumerGroup.Proofs.Delay.Configured
import ConsumerGroup.Proofs.TopicRoutes
import ConsumerGroup.Proofs.TokenOrder
import ConsumerGroup.Proofs.HeaderEdits
import ConsumerGroup.Proofs.RetryNumerals
import ConsumerGroup.Proofs.Engine.Books
import ConsumerGroup.Proofs.MessageCounts
import ConsumerGroup.Proofs.InFlightLevels
