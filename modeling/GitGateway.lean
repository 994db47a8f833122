import GitGateway.Access.Key
import GitGateway.Access.Level
import GitGateway.Access.Policy
import GitGateway.Access.Settings
import GitGateway.Bytes.Base64
import GitGateway.Bytes.Der
import GitGateway.Bytes.Sha256
import GitGateway.Bytes.Sha512
import GitGateway.Bytes.Wire
import GitGateway.Chain
import GitGateway.Chain.AccessLog
import GitGateway.Chain.Containment
import GitGateway.Chain.Screens
import GitGateway.Chain.Standard
import GitGateway.Chain.Transport
import GitGateway.Config
import GitGateway.Config.Decode
import GitGateway.Config.Load
import GitGateway.Config.Validate
import GitGateway.Crypto.Curve
import GitGateway.Crypto.Edwards
import GitGateway.Dispatch
import GitGateway.Failure
import GitGateway.Files.Disk
import GitGateway.Files.Entry
import GitGateway.Files.Layout
import GitGateway.Files.OsError
import GitGateway.Gateway
import GitGateway.Gateway.Admission
import GitGateway.Gateway.Backing
import GitGateway.Git.CommandLine
import GitGateway.Git.Exchange
import GitGateway.Git.Exit
import GitGateway.Git.PackService
import GitGateway.Git.PktLine
import GitGateway.Git.Request
import GitGateway.Host
import GitGateway.Launch
import GitGateway.Launch.Options
import GitGateway.Log
import GitGateway.Main
import GitGateway.Net.SocketAddr
import GitGateway.Path
import GitGateway.Program
import GitGateway.Proofs.Acceptance
import GitGateway.Proofs.Addresses
import GitGateway.Proofs.Admissions
import GitGateway.Proofs.Aliases
import GitGateway.Proofs.Answers
import GitGateway.Proofs.Arguments
import GitGateway.Proofs.Cancellations
import GitGateway.Proofs.Causes
import GitGateway.Proofs.Confinement
import GitGateway.Proofs.Connections
import GitGateway.Proofs.Courses
import GitGateway.Proofs.Creations
import GitGateway.Proofs.Crews
import GitGateway.Proofs.Deliveries
import GitGateway.Proofs.DeniedReads
import GitGateway.Proofs.Disks
import GitGateway.Proofs.DispatchOrder
import GitGateway.Proofs.Entries
import GitGateway.Proofs.Escapes
import GitGateway.Proofs.Exchanges
import GitGateway.Proofs.Exposures
import GitGateway.Proofs.FileNames
import GitGateway.Proofs.FirstPushes
import GitGateway.Proofs.Foundings
import GitGateway.Proofs.Grants
import GitGateway.Proofs.Grounds
import GitGateway.Proofs.Guards
import GitGateway.Proofs.Inventory
import GitGateway.Proofs.Keys
import GitGateway.Proofs.Levels
import GitGateway.Proofs.Listings
import GitGateway.Proofs.Machines
import GitGateway.Proofs.Names
import GitGateway.Proofs.Nesting
import GitGateway.Proofs.Opening
import GitGateway.Proofs.Outlets
import GitGateway.Proofs.Outputs
import GitGateway.Proofs.Packets
import GitGateway.Proofs.Path
import GitGateway.Proofs.Pipes
import GitGateway.Proofs.Protections
import GitGateway.Proofs.Pushes
import GitGateway.Proofs.Readback
import GitGateway.Proofs.Records
import GitGateway.Proofs.Relays
import GitGateway.Proofs.Removals
import GitGateway.Proofs.Rendered
import GitGateway.Proofs.Reopening
import GitGateway.Proofs.Repositories
import GitGateway.Proofs.Resolutions
import GitGateway.Proofs.Scripts
import GitGateway.Proofs.Settings
import GitGateway.Proofs.Spellings
import GitGateway.Proofs.Stages
import GitGateway.Proofs.Symbols
import GitGateway.Proofs.Transcripts
import GitGateway.Proofs.Trees
import GitGateway.Proofs.Variables
import GitGateway.Proofs.Walks
import GitGateway.Proofs.Wedges
import GitGateway.Proofs.Words
import GitGateway.Repo.Confine
import GitGateway.Repo.Name
import GitGateway.Scripted.Git
import GitGateway.Scripted.Host
import GitGateway.Scripted.Surroundings
import GitGateway.Session
import GitGateway.Session.Error
import GitGateway.Ssh.Connection
import GitGateway.Ssh.HostKey
import GitGateway.Ssh.HostKey.Decode
import GitGateway.Ssh.HostKey.Load
import GitGateway.Ssh.Relay
import GitGateway.Ssh.Supervision
import GitGateway.Store
import GitGateway.Store.Listing
import GitGateway.Store.Walk
import GitGateway.Stream
import GitGateway.Stream.Cancellable
import GitGateway.Stream.Duplex
import GitGateway.Stream.Pipe
import GitGateway.Text.Blank
import GitGateway.Text.Printable
import GitGateway.Text.Quoted
import GitGateway.Text.Similar
import GitGateway.Text.Utf8
import GitGateway.Yaml.Cursor
import GitGateway.Yaml.Event
import GitGateway.Yaml.Lexer
import GitGateway.Yaml.Node
import GitGateway.Yaml.Scalar
import GitGateway.Yaml.Token
