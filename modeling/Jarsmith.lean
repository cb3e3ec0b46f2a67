import Jarsmith.AccessWidener.Apply
import Jarsmith.AccessWidener.Basic
import Jarsmith.Archive.Deflate
import Jarsmith.Archive.Entry
import Jarsmith.Archive.Inflate
import Jarsmith.Archive.Matches
import Jarsmith.Archive.PrefixCode
import Jarsmith.Archive.Zip
import Jarsmith.Bundle
import Jarsmith.Bytes
import Jarsmith.ClassFile.Annotations
import Jarsmith.ClassFile.Basic
import Jarsmith.ClassFile.Code
import Jarsmith.ClassFile.Constant
import Jarsmith.ClassFile.Descriptor
import Jarsmith.ClassFile.Encoding
import Jarsmith.ClassFile.Fault
import Jarsmith.ClassFile.Pool
import Jarsmith.ClassFile.Signature
import Jarsmith.ClassFile.SignaturePass
import Jarsmith.ClassFile.Structure
import Jarsmith.Digest
import Jarsmith.Downloader
import Jarsmith.Error
import Jarsmith.Invocation
import Jarsmith.Ivy
import Jarsmith.Jar.Entry
import Jarsmith.Jar.LocalNames
import Jarsmith.Jar.Manifest
import Jarsmith.Jar.Merge
import Jarsmith.Jar.SourceFile
import Jarsmith.Jar.Transform
import Jarsmith.Jar.Transformer
import Jarsmith.Jar.Writer
import Jarsmith.Json.Value
import Jarsmith.Lookup
import Jarsmith.Main
import Jarsmith.Mappings.Basic
import Jarsmith.Mappings.Format
import Jarsmith.Mappings.Layers
import Jarsmith.Mappings.Lines
import Jarsmith.Mappings.Merge
import Jarsmith.Mappings.Parchment
import Jarsmith.Mappings.ProGuard
import Jarsmith.Mappings.SlotNames
import Jarsmith.Mappings.Srg
import Jarsmith.Mappings.Tiny
import Jarsmith.Maven
import Jarsmith.Memo
import Jarsmith.Modifier.Basic
import Jarsmith.Moment
import Jarsmith.OrderedMap
import Jarsmith.Platform
import Jarsmith.Proofs.AccessWidener.Owners
import Jarsmith.Proofs.AccessWidener.RuleSets
import Jarsmith.Proofs.Bytes.Codec
import Jarsmith.Proofs.ClassFile.Annotations
import Jarsmith.Proofs.ClassFile.Bodies
import Jarsmith.Proofs.ClassFile.Constants
import Jarsmith.Proofs.ClassFile.Descriptor
import Jarsmith.Proofs.ClassFile.Marker
import Jarsmith.Proofs.ClassFile.MethodBodies
import Jarsmith.Proofs.ClassFile.ParameterSlots
import Jarsmith.Proofs.ClassFile.Renaming
import Jarsmith.Proofs.ClassFile.RoundTrip
import Jarsmith.Proofs.ClassFile.SignatureNames
import Jarsmith.Proofs.ClassFile.SignaturePass
import Jarsmith.Proofs.ClassFile.Tables
import Jarsmith.Proofs.Downloader
import Jarsmith.Proofs.Jar.AgreeingTables
import Jarsmith.Proofs.Jar.BothSides
import Jarsmith.Proofs.Jar.ClassPaths
import Jarsmith.Proofs.Jar.Entries
import Jarsmith.Proofs.Jar.FixedNames
import Jarsmith.Proofs.Jar.GivenNames
import Jarsmith.Proofs.Jar.MainClass
import Jarsmith.Proofs.Jar.Manifest
import Jarsmith.Proofs.Jar.Merging
import Jarsmith.Proofs.Jar.Passes
import Jarsmith.Proofs.Jar.PlainClass
import Jarsmith.Proofs.Jar.Renamed
import Jarsmith.Proofs.Jar.Replacing
import Jarsmith.Proofs.Jar.Rereading
import Jarsmith.Proofs.Jar.Signatures
import Jarsmith.Proofs.Jar.Staged
import Jarsmith.Proofs.Jar.Widening
import Jarsmith.Proofs.Mappings.FieldUnion
import Jarsmith.Proofs.Mappings.Fields
import Jarsmith.Proofs.Mappings.Format
import Jarsmith.Proofs.Mappings.Identity
import Jarsmith.Proofs.Mappings.JavaType
import Jarsmith.Proofs.Mappings.LayerRequests
import Jarsmith.Proofs.Mappings.Layers
import Jarsmith.Proofs.Mappings.LineFormats
import Jarsmith.Proofs.Mappings.Lines
import Jarsmith.Proofs.Mappings.Merge
import Jarsmith.Proofs.Mappings.MergedRecords
import Jarsmith.Proofs.Mappings.OuterNames
import Jarsmith.Proofs.Mappings.Overlay
import Jarsmith.Proofs.Mappings.ProGuard
import Jarsmith.Proofs.Mappings.Projection
import Jarsmith.Proofs.Mappings.Records
import Jarsmith.Proofs.Mappings.Reverse
import Jarsmith.Proofs.Mappings.Rows
import Jarsmith.Proofs.Mappings.Srg
import Jarsmith.Proofs.Mappings.StateKey
import Jarsmith.Proofs.Mappings.Tabular
import Jarsmith.Proofs.Mappings.Tiny
import Jarsmith.Proofs.Mappings.TinyPlaces
import Jarsmith.Proofs.Maven
import Jarsmith.Proofs.OrderedMap
import Jarsmith.Proofs.Outcome
import Jarsmith.Proofs.Pool.Edit
import Jarsmith.Proofs.Pool.Known
import Jarsmith.Proofs.Pool.Layout
import Jarsmith.Proofs.Pool.Runs
import Jarsmith.Proofs.Pool.Sound
import Jarsmith.Proofs.Pool.Texts
import Jarsmith.Proofs.Remap.AnnotationPieces
import Jarsmith.Proofs.Remap.AnnotationRewriting
import Jarsmith.Proofs.Remap.Annotations
import Jarsmith.Proofs.Remap.Attributes
import Jarsmith.Proofs.Remap.Bodies
import Jarsmith.Proofs.Remap.Constants
import Jarsmith.Proofs.Remap.EntryOrder
import Jarsmith.Proofs.Remap.InnerNames
import Jarsmith.Proofs.Remap.Lineage
import Jarsmith.Proofs.Remap.Members
import Jarsmith.Proofs.Remap.Passes
import Jarsmith.Proofs.Remap.Renaming
import Jarsmith.Proofs.Remap.RoundTrip
import Jarsmith.Proofs.Remap.Silent
import Jarsmith.Proofs.Remap.WayBack
import Jarsmith.Proofs.Resolver.Again
import Jarsmith.Proofs.Resolver.Associated
import Jarsmith.Proofs.Resolver.Histories
import Jarsmith.Proofs.Resolver.OneByOne
import Jarsmith.Proofs.Resolver.Overlapping
import Jarsmith.Proofs.Resolver.Products
import Jarsmith.Proofs.Resolver.Serving
import Jarsmith.Proofs.Resolver.Storage
import Jarsmith.Proofs.Store.Places
import Jarsmith.Proofs.Store.Siblings
import Jarsmith.Proofs.Store.Staging
import Jarsmith.Proofs.Text.Blank
import Jarsmith.Proofs.Text.ModifiedUtf8
import Jarsmith.Proofs.Text.Split
import Jarsmith.Proofs.Text.Utf8
import Jarsmith.Proofs.Version.Repository
import Jarsmith.Remap.Class
import Jarsmith.Remap.Hierarchy
import Jarsmith.Remap.Recall
import Jarsmith.Remap.Remapper
import Jarsmith.Request
import Jarsmith.Resolver.Associated
import Jarsmith.Resolver.Basic
import Jarsmith.Resolver.Provide
import Jarsmith.Settings
import Jarsmith.Store.Basic
import Jarsmith.Store.Path
import Jarsmith.Store.Staging
import Jarsmith.TaskQueue
import Jarsmith.Text.Letters
import Jarsmith.Text.ModifiedUtf8
import Jarsmith.Text.Quoted
import Jarsmith.Text.Split
import Jarsmith.Text.Utf8
import Jarsmith.Version.Descriptor
import Jarsmith.Version.Library
import Jarsmith.Version.Manifest
import Jarsmith.Version.Repository
import Jarsmith.World
