import SizeAtlas.Main
import SizeAtlas.Treemap.Json
import SizeAtlas.Proofs.Text.Hex
import SizeAtlas.Proofs.Text.Utf8
import SizeAtlas.Proofs.Text.Ascii
import SizeAtlas.Proofs.Json.RoundTrip
import SizeAtlas.Proofs.Fallible
import SizeAtlas.Proofs.FreeName
import SizeAtlas.Proofs.Entering
import SizeAtlas.Proofs.Merging
import SizeAtlas.Proofs.Report
import SizeAtlas.Proofs.Roster
import SizeAtlas.Proofs.Sorting
import SizeAtlas.Proofs.SymbolTable
import SizeAtlas.Proofs.Renames.Escape
import SizeAtlas.Proofs.Renames.RoundTrip
import SizeAtlas.Proofs.Bytes.Reading
import SizeAtlas.Proofs.Bytes.Copy
import SizeAtlas.Proofs.Bytes.Varint
import SizeAtlas.Proofs.Wasm.Attribution
import SizeAtlas.Proofs.Wasm.Layout
import SizeAtlas.Proofs.Wasm.Symbols
import SizeAtlas.Proofs.Wasm.Conservation
import SizeAtlas.Proofs.Wasm.IndexSpace
import SizeAtlas.Proofs.Wasm.Format
import SizeAtlas.Proofs.Wasm.RoundTrip
import SizeAtlas.Proofs.Wasm.Copy
import SizeAtlas.Proofs.Wasm.Confinement
import SizeAtlas.Proofs.Wasm.Placement
import SizeAtlas.Proofs.Wasm.Reordering
import SizeAtlas.Proofs.Wasm.Rereading
import SizeAtlas.Proofs.Wasm.Truncation
import SizeAtlas.Proofs.Script.Nesting
import SizeAtlas.Proofs.Script.Walk
import SizeAtlas.Proofs.Script.Conservation
import SizeAtlas.Proofs.Script.Listing
import SizeAtlas.Proofs.Script.Spelling
import SizeAtlas.Proofs.Script.Refinement
import SizeAtlas.Proofs.Script.Clashes
import SizeAtlas.Proofs.SourceMap.Renaming
import SizeAtlas.Proofs.SourceMap.Agreement
import SizeAtlas.Proofs.SourceMap.Vlq
import SizeAtlas.Proofs.SourceMap.Digits
import SizeAtlas.Proofs.SourceMap.Lines
import SizeAtlas.Proofs.SourceMap.RoundTrip
import SizeAtlas.Proofs.SourceMap.Lookup
import SizeAtlas.Proofs.SourceMap.Ownership
import SizeAtlas.Proofs.SourceMap.Scan
import SizeAtlas.Proofs.Wasm.NameDecoding
import SizeAtlas.Proofs.Treemap.Block
import SizeAtlas.Proofs.Treemap.Aggregation
import SizeAtlas.Proofs.Treemap.Drawing
import SizeAtlas.Proofs.Treemap.Renaming
import SizeAtlas.Proofs.CommandLine.Output
import SizeAtlas.Proofs.Script.Borrowing
import SizeAtlas.Proofs.Script.Provenance
import SizeAtlas.Proofs.SourceMap.Parallel
import SizeAtlas.Proofs.Script.Numbering
import SizeAtlas.Proofs.Script.Declarators
import SizeAtlas.Proofs.Script.Stored
import SizeAtlas.Proofs.Wasm.Faults
import SizeAtlas.Proofs.Measurement
import SizeAtlas.Proofs.Treemap.Finding
import SizeAtlas.Proofs.History
import SizeAtlas.Proofs.Script.Expansion
import SizeAtlas.Proofs.SourceMap.Columns
