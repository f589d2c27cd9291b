import ContentTypes.Declaration.Family
import ContentTypes.Key.Text
import ContentTypes.LogFormat
import ContentTypes.Main
import ContentTypes.NamePool
import ContentTypes.Proofs.Cache.Largest
import ContentTypes.Proofs.Cache.Sessions
import ContentTypes.Proofs.Declaration.Forms
import ContentTypes.Proofs.Effective.Appending
import ContentTypes.Proofs.Effective.Blame
import ContentTypes.Proofs.Effective.Views
import ContentTypes.Proofs.Key.Lawful
import ContentTypes.Proofs.Key.Table
import ContentTypes.Proofs.Resolver.Balanced
import ContentTypes.Proofs.Resolver.Calls
import ContentTypes.Proofs.Resolver.Constituents
import ContentTypes.Proofs.Resolver.Limited
import ContentTypes.Proofs.Resolver.Removal
import ContentTypes.Proofs.Resolver.Repeat
import ContentTypes.Proofs.Resolver.RequestOrder
import ContentTypes.Proofs.Resolver.Restriction
import ContentTypes.Proofs.Resolver.Termination
import ContentTypes.Proofs.Resolver.TypeSets
import ContentTypes.Proofs.Resolver.TypedChildren
