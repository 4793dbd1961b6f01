import BuildOrder.Main
import BuildOrder.Proofs.BuildFile
import BuildOrder.Proofs.CommandLine.Agreement
import BuildOrder.Proofs.Dependency.Leftover
import BuildOrder.Proofs.Dependency.Recursion
import BuildOrder.Proofs.Dependency.TieBreak
import BuildOrder.Proofs.Discovery
import BuildOrder.Proofs.Loading.Contained
import BuildOrder.Proofs.Loading.Schedules
import BuildOrder.Proofs.Node.Outline
import BuildOrder.Proofs.Node.Prefix
import BuildOrder.Proofs.Node.Segment
import BuildOrder.Proofs.Resolution
import BuildOrder.Proofs.Token.Place
import BuildOrder.Proofs.Token.Unclosed
import BuildOrder.Proofs.Token.Lines
import BuildOrder.Proofs.Node.Places
import BuildOrder.Proofs.Token.Comments
import BuildOrder.Proofs.Module.Properties
import BuildOrder.Proofs.Node.Respelling
import BuildOrder.Proofs.Catalog.Unknown
import BuildOrder.Proofs.FileTree.Walk
import BuildOrder.Proofs.Discovery.Listing
import BuildOrder.Proofs.Discovery.Opening
import BuildOrder.Proofs.Discovery.Overlap
import BuildOrder.Proofs.Loading.Duplicates
import BuildOrder.Proofs.Catalog.Repeats
import BuildOrder.Proofs.Dependency.Depth
import BuildOrder.Proofs.Loading.Encoded
import BuildOrder.Proofs.FileTree.Pruned
import BuildOrder.Proofs.Clean
import BuildOrder.Proofs.Catalog.Addition
import BuildOrder.Proofs.Token.Progress
import BuildOrder.Proofs.Node.Calls
