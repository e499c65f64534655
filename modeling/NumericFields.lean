import NumericFields.Build
import NumericFields.Container
import NumericFields.Cursor
import NumericFields.Floating.Parse
import NumericFields.Integer.Parse
import NumericFields.Wire.Field
import NumericFields.Proofs.Text.Decimal
import NumericFields.Proofs.Text.Runs
import NumericFields.Proofs.Text.Excerpt
import NumericFields.Proofs.Text.Escape
import NumericFields.Proofs.Integer.Gathering
import NumericFields.Proofs.Integer.Reading
import NumericFields.Proofs.Integer.Reader
import NumericFields.Proofs.Integer.Refusal
import NumericFields.Proofs.Integer.Widening
import NumericFields.Proofs.Integer.Rendering
import NumericFields.Proofs.Integer.Negation
import NumericFields.Proofs.Integer.Concatenation
import NumericFields.Proofs.Integer.Headroom
import NumericFields.Proofs.Floating.Spelling
import NumericFields.Proofs.Floating.Scanning
import NumericFields.Proofs.Floating.LongestPrefix
import NumericFields.Proofs.Floating.Grammar
import NumericFields.Proofs.Floating.Classification
import NumericFields.Proofs.Floating.Surroundings
import NumericFields.Proofs.Floating.Magnitude
import NumericFields.Proofs.Floating.Nearest
import NumericFields.Proofs.Floating.Rounding
import NumericFields.Proofs.Floating.Datum
import NumericFields.Proofs.Floating.Precision
import NumericFields.Proofs.Floating.Integers
import NumericFields.Proofs.Cursor
import NumericFields.Proofs.Advance
import NumericFields.Proofs.Wire.Field
import NumericFields.Proofs.Wire.Message
import NumericFields.Proofs.Wire.Nesting
import NumericFields.Proofs.Records
import NumericFields.Proofs.Floating.Narrowing
import NumericFields.Proofs.RecordText
import NumericFields.Proofs.Quotation
import NumericFields.Proofs.Container
